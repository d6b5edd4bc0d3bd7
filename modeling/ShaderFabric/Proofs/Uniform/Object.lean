/-
# Objects by their keys

An object keeps its fields in the order of their keys, which is neither the order of the components
of a vector nor that of the faces of a cube.  So what is read off an object is told by keys in the
order in which they are meant, and by what the object has under each of them.

* `Table.HasKeys`, `Table.Sorted.eq_of_gives` -- the keys of a table, and a table by what it has
  under them;
* `LocationsOf`, `NumbersOf` -- what an object has under keys (`exists_locationsOf_iff`,
  `exists_numbersOf_iff`: if all its fields are of the right kind);
* `inferObject_of_cube` -- the faces of a cube map, in the order of the layers;
* `inferObject_of_compressed` -- the families of a compressed set, each with its own place;
* `inferVector_eq_some_iff` -- a vector or a colour, as the sequence of its components.
-/
import Mathlib.Data.List.Sort
import ShaderFabric.Proofs.Checks
import ShaderFabric.Proofs.Table
import ShaderFabric.Uniform.Value

namespace ShaderFabric

/-! ## 1. The keys of a table -/

namespace Table

variable {α : Type} {table : Table α} {keys : List String} {values : List α}

/-- **The names of a table are exactly these keys**, in whatever order they are listed. -/
def HasKeys (table : Table α) (keys : List String) : Prop := ∀ key, key ∈ table.names ↔ key ∈ keys

/-- What a table has under each of some keys. -/
def Gives (table : Table α) (keys : List String) (values : List α) : Prop :=
  List.Forall₂ (fun key value => table.find? key = some value) keys values

theorem mem_names_of_mem {entry : String × α} (h : entry ∈ table) : entry.1 ∈ table.names :=
  List.mem_map_of_mem h

theorem exists_mem_of_mem_names {name : String} (h : name ∈ table.names) :
    ∃ value, (name, value) ∈ table := by
  obtain ⟨⟨key, value⟩, hmem, rfl⟩ := List.mem_map.mp h
  exact ⟨value, hmem⟩

theorem Sorted.find?_eq_some_iff (sorted : table.Sorted) {name : String} {value : α} :
    table.find? name = some value ↔ (name, value) ∈ table :=
  ⟨mem_of_find?_eq_some, find?_eq_some_of_mem sorted.nodup⟩

/-- **A table is known by its entries.** -/
theorem Sorted.eq_of_mem_iff {other : Table α} (sorted : table.Sorted) (hother : other.Sorted)
    (h : ∀ entry, entry ∈ table ↔ entry ∈ other) : table = other := by
  have hperm : List.Perm table other := (List.perm_ext_iff_of_nodup
    (List.Nodup.of_map Prod.fst sorted.nodup) (List.Nodup.of_map Prod.fst hother.nodup)).mpr h
  have hpairwise : ∀ {t : Table α}, t.Sorted → t.Pairwise fun entry later => entry.1 < later.1 :=
    fun h => List.pairwise_map.mp h
  exact hperm.eq_of_pairwise (fun entry later _ _ hlt hgt => absurd hgt (String.lt_asymm hlt))
    (hpairwise sorted) (hpairwise hother)

theorem Gives.mem_zip_iff (gives : table.Gives keys values) {key : String} {value : α} :
    (key, value) ∈ keys.zip values ↔ key ∈ keys ∧ table.find? key = some value := by
  constructor
  · intro h
    exact ⟨(List.of_mem_zip h).1, List.forall₂_zip gives h⟩
  · rintro ⟨hkey, hfind⟩
    induction gives with
    | nil => exact absurd hkey List.not_mem_nil
    | cons hfirst _ ih =>
      rw [List.zip_cons_cons]
      rcases List.mem_cons.mp hkey with rfl | hkey
      · rw [hfirst] at hfind
        cases hfind
        exact List.mem_cons_self
      · exact List.mem_cons_of_mem _ (ih hkey)

/-- **A table is known by what it has under its keys**, listed in any order. -/
theorem Sorted.eq_of_gives (sorted : table.Sorted) (hkeys : table.HasKeys keys)
    (gives : table.Gives keys values) {entries : Table α} (hentries : entries.Sorted)
    (hperm : (keys.zip values).Perm entries) : table = entries := by
  refine sorted.eq_of_mem_iff hentries fun entry => ?_
  obtain ⟨key, value⟩ := entry
  rw [← hperm.mem_iff, gives.mem_zip_iff, sorted.find?_eq_some_iff]
  exact ⟨fun h => ⟨(hkeys key).mp (mem_names_of_mem h), h⟩, fun h => h.2⟩

/-- What holds of everything under the keys of a table holds of all its entries. -/
theorem Sorted.forall_keys_iff (sorted : table.Sorted) (hkeys : table.HasKeys keys)
    {p : α → Prop} : (∀ key ∈ keys, ∃ value, table.find? key = some value ∧ p value) ↔
      ∀ entry ∈ table, p entry.2 := by
  constructor
  · rintro h ⟨key, value⟩ hmem
    obtain ⟨found, hfind, hp⟩ := h key ((hkeys key).mp (mem_names_of_mem hmem))
    rw [sorted.find?_eq_some_iff.mpr hmem] at hfind
    cases hfind
    exact hp
  · intro h key hkey
    obtain ⟨value, hmem⟩ := exists_mem_of_mem_names ((hkeys key).mpr hkey)
    exact ⟨value, sorted.find?_eq_some_iff.mpr hmem, h _ hmem⟩

end Table

/-- Something can be chosen for each member of a list if and only if there is a list of choices. -/
theorem exists_forall₂_iff {α β : Type} {R : α → β → Prop} : ∀ {list : List α},
    (∃ choices, List.Forall₂ R list choices) ↔ ∀ a ∈ list, ∃ b, R a b
  | [] => ⟨fun _ _ h => absurd h List.not_mem_nil, fun _ => ⟨[], .nil⟩⟩
  | a :: rest => by
    rw [List.forall_mem_cons, ← exists_forall₂_iff]
    simp only [List.forall₂_cons_left_iff]
    constructor
    · rintro ⟨_, b, choices, hb, hchoices, rfl⟩
      exact ⟨⟨b, hb⟩, choices, hchoices⟩
    · rintro ⟨⟨b, hb⟩, choices, hchoices⟩
      exact ⟨_, b, choices, hb, hchoices, rfl⟩

/-! ## 2. What an object has under keys -/

/-- Locations are those that fields give under keys, in order. -/
def LocationsOf (fields : Table Field) (keys : List String) (locations : List Location) : Prop :=
  List.Forall₂ (fun key location => ∃ url, fields.find? key = some (.text url) ∧
    location = .plain url) keys locations

/-- Numbers are those that fields give under keys, in order. -/
def NumbersOf (fields : Table Field) (keys : List String) (numbers : List Double) : Prop :=
  List.Forall₂ (fun key number => fields.find? key = some (.number number)) keys numbers

/-- All fields are texts. -/
def AllTexts (fields : Table Field) : Prop := ∀ entry ∈ fields, ∃ url, entry.2 = .text url

/-- All fields are numbers. -/
def AllNumbers (fields : Table Field) : Prop := ∀ entry ∈ fields, ∃ number, entry.2 = .number number

/-- The place of an image that fields give under a key. -/
def locationUnder (fields : Table Field) (key : String) : Option Location :=
  match fields.find? key with
  | some (.text url) => some (.plain url)
  | _ => none

/-- The keys of the families of compression. -/
def codecKeys : List String := ["s3tc", "etc1", "pvrtc"]

/-- The keys of vectors and colours, each in the order of the components. -/
def componentKeys : List (List String) :=
  [["x", "y"], ["x", "y", "z"], ["x", "y", "z", "w"], ["red", "green", "blue", "alpha"]]

namespace Literal

section Objects

variable {fields : Table Field} (sorted : fields.Sorted) {keys : List String}
  (hkeys : fields.HasKeys keys)

include sorted hkeys

theorem exists_locationsOf_iff : (∃ locations, LocationsOf fields keys locations) ↔
    AllTexts fields := by
  have hall : _ ↔ AllTexts fields := sorted.forall_keys_iff
    (p := fun field => ∃ url, field = Field.text url) hkeys
  refine exists_forall₂_iff.trans ((forall₂_congr fun key _ => ?_).trans hall)
  constructor
  · rintro ⟨_, url, hfind, -⟩
    exact ⟨_, hfind, url, rfl⟩
  · rintro ⟨_, hfind, url, rfl⟩
    exact ⟨_, url, hfind, rfl⟩

theorem exists_numbersOf_iff : (∃ values, NumbersOf fields keys values) ↔
    AllNumbers fields := by
  have hall : _ ↔ AllNumbers fields := sorted.forall_keys_iff
    (p := fun field => ∃ number, field = Field.number number) hkeys
  refine exists_forall₂_iff.trans ((forall₂_congr fun key _ => ?_).trans hall)
  constructor
  · rintro ⟨number, hfind⟩
    exact ⟨_, hfind, number, rfl⟩
  · rintro ⟨_, hfind, number, rfl⟩
    exact ⟨number, hfind⟩

end Objects

/-! ## 3. Cube maps -/

section Objects

variable {fields : Table Field}

/-- **Six keys that are those of the faces.** -/
theorem isCube_iff (sorted : fields.Sorted) : isCube fields = true ↔ fields.HasKeys faceKeys := by
  have hfaces : faceKeys.Nodup := by decide
  unfold isCube
  simp only [Bool.and_eq_true, decide_eq_true_eq, List.all_eq_true]
  constructor
  · rintro ⟨hlength, hall⟩
    have hsub : faceKeys ⊆ fields.names := by
      intro key hkey
      obtain ⟨field, hfield⟩ := Option.isSome_iff_exists.mp (hall key hkey)
      exact Table.mem_names_of_mem (Table.mem_of_find?_eq_some hfield)
    have hperm : faceKeys.Perm fields.names :=
      (List.subperm_of_subset hfaces hsub).perm_of_length_le (by
        rw [Table.names, List.length_map, hlength])
    exact fun key => hperm.mem_iff.symm
  · intro h
    have hperm : fields.names.Perm faceKeys :=
      (List.perm_ext_iff_of_nodup sorted.nodup hfaces).mpr h
    refine ⟨?_, fun key hkey => Table.contains_of_mem ((h key).mpr hkey)⟩
    rw [← hperm.length_eq, Table.names, List.length_map]

theorem faceLocation_eq_ok_iff {key : String} {location : Location} :
    faceLocation fields key = .ok location ↔
      ∃ url, fields.find? key = some (.text url) ∧ location = .plain url := by
  unfold faceLocation
  split
  · rename_i url hfind
    simp [hfind, eq_comm]
  · rename_i hother
    refine iff_of_false (fun h => by cases h) ?_
    rintro ⟨url, hfind, -⟩
    exact hother url hfind

/-- **What is read off a row of keys** stands in the order of the keys. -/
theorem mapM_faceLocation_eq_ok_iff : ∀ {keys : List String} {locations : List Location},
    keys.mapM (faceLocation fields) = .ok locations ↔ LocationsOf fields keys locations
  | [], locations => by
    rw [List.mapM_nil, pure_eq_ok, LocationsOf, List.forall₂_nil_left_iff, eq_comm]
  | key :: rest, locations => by
    rw [LocationsOf, List.forall₂_cons_left_iff, List.mapM_cons, bind_eq_ok]
    simp only [bind_eq_ok, pure_eq_ok, faceLocation_eq_ok_iff, mapM_faceLocation_eq_ok_iff,
      eq_comm (b := locations)]
    constructor
    · rintro ⟨location, hlocation, others, hothers, rfl⟩
      exact ⟨location, others, hlocation, hothers, rfl⟩
    · rintro ⟨location, others, hlocation, hothers, rfl⟩
      exact ⟨location, hlocation, others, hothers, rfl⟩

theorem exists_ofList? {α : Type} {list : List α} (h : list.length = 6) :
    ∃ faces, Faces.ofList? list = some faces := by
  obtain ⟨count, entries, rfl⟩ : ∃ (count : Nat) (entries : Fin count → α),
      list = List.ofFn entries := ⟨_, list.get, (List.ofFn_get list).symm⟩
  obtain rfl : count = 6 := List.length_ofFn.symm.trans h
  exact ⟨_, rfl⟩

theorem ofList?_eq_some_iff {α : Type} {list : List α} {faces : Faces α} :
    Faces.ofList? list = some faces ↔ faces.toList = list := by
  constructor
  · intro h
    unfold Faces.ofList? at h
    split at h
    · cases h
      rfl
    · cases h
  · rintro rfl
    rfl

/-- Six locations are the faces of a cube map. -/
theorem LocationsOf.exists_faces {fields : Table Field} {locations : List Location}
    (h : LocationsOf fields faceKeys locations) :
    ∃ faces : Faces Location, faces.toList = locations := by
  obtain ⟨faces, hfaces⟩ := exists_ofList? h.length_eq.symm
  exact ⟨faces, ofList?_eq_some_iff.mp hfaces⟩

/-- **The faces of a cube map** stand in the order of the layers. -/
theorem inferObject_of_cube (hcube : isCube fields = true) {value : Value} :
    inferObject fields = .ok value ↔
      ∃ faces : Faces Location, LocationsOf fields faceKeys faces.toList ∧
        value = .cube (.faces faces) := by
  rw [inferObject, if_pos hcube]
  simp only [bind_eq_ok, mapM_faceLocation_eq_ok_iff]
  constructor
  · rintro ⟨locations, hlocations, h⟩
    split at h
    · rename_i faces hfaces
      cases h
      exact ⟨faces, ofList?_eq_some_iff.mp hfaces ▸ hlocations, rfl⟩
    · cases h
  · rintro ⟨faces, hlocations, rfl⟩
    refine ⟨faces.toList, hlocations, ?_⟩
    rw [ofList?_eq_some_iff.mpr rfl]
    rfl

/-! ## 4. Compressed sets -/

theorem ofKey?_eq_some_iff {key : String} {codec : Codec} :
    Codec.ofKey? key = some codec ↔ codec.key = key := by
  constructor
  · intro h
    exact of_decide_eq_true (List.find?_some (p := fun codec : Codec => decide (codec.key = key)) h)
  · rintro rfl
    cases codec <;> rfl

theorem isSome_ofKey?_iff {key : String} :
    (Codec.ofKey? key).isSome = true ↔ key ∈ codecKeys := by
  simp only [Option.isSome_iff_exists, ofKey?_eq_some_iff, codecKeys, List.mem_cons,
    List.not_mem_nil, or_false]
  constructor
  · rintro ⟨codec, rfl⟩
    cases codec <;> simp [Codec.key]
  · rintro (rfl | rfl | rfl)
    · exact ⟨.s3tc, rfl⟩
    · exact ⟨.etc1, rfl⟩
    · exact ⟨.pvrtc, rfl⟩

/-- **Some keys, all of them of families.** -/
theorem isCompressed_iff : isCompressed fields = true ↔
    fields ≠ [] ∧ ∀ name ∈ fields.names, name ∈ codecKeys := by
  unfold isCompressed
  simp only [Bool.and_eq_true, Bool.not_eq_true', List.isEmpty_eq_false_iff, List.all_eq_true,
    isSome_ofKey?_iff, Table.names, List.forall_mem_map]

theorem key_injective {codec other : Codec} (h : codec.key = other.key) : codec = other :=
  Option.some.inj ((ofKey?_eq_some_iff.mpr h).symm.trans (ofKey?_eq_some_iff.mpr rfl))

/-- A set is known by what it offers. -/
theorem compressedSet_ext {set other : CompressedSet}
    (h : ∀ codec, set.get? codec = other.get? codec) : set = other := by
  have hs3tc : set.s3tc = other.s3tc := h .s3tc
  have hetc1 : set.etc1 = other.etc1 := h .etc1
  have hpvrtc : set.pvrtc = other.pvrtc := h .pvrtc
  cases set
  cases other
  simp_all

/-- There is a set that offers what fields give under the keys of the families. -/
theorem exists_offering (fields : Table Field) :
    ∃ set : CompressedSet, ∀ codec, set.get? codec = locationUnder fields codec.key :=
  ⟨⟨locationUnder fields "s3tc", locationUnder fields "etc1", locationUnder fields "pvrtc"⟩,
    fun codec => by cases codec <;> rfl⟩

theorem locationUnder_eq_none {key : String} (h : key ∉ fields.names) :
    locationUnder fields key = none := by
  unfold locationUnder
  split
  · rename_i url hfind
    exact absurd (Table.mem_names_of_mem (Table.mem_of_find?_eq_some hfind)) h
  · rfl

/-- The first entry gives its family a place, and the others know nothing of it. -/
theorem locationUnder_cons {codec : Codec} {url : String} {rest : Table Field}
    (hnot : codec.key ∉ rest.names) (set : CompressedSet) (other : Codec) :
    (locationUnder ((codec.key, .text url) :: rest) other.key).or (set.get? other) =
      (locationUnder rest other.key).or ((set.put codec (.plain url)).get? other) := by
  rw [CompressedSet.get?_put]
  by_cases heq : codec = other
  · subst heq
    rw [locationUnder_eq_none hnot, if_pos rfl, locationUnder, Table.find?, if_pos rfl]
    rfl
  · rw [if_neg heq, locationUnder, Table.find?, if_neg (mt key_injective heq)]
    rfl

/-- What is added to a set, one entry after the other: **each family gets the place under its
key**. -/
theorem compressedSet_eq_ok_iff : ∀ {fields : Table Field} {set result : CompressedSet},
    fields.names.Nodup → (compressedSet set fields = .ok result ↔
      (∀ name ∈ fields.names, name ∈ codecKeys) ∧ AllTexts fields ∧
        ∀ codec, result.get? codec = (locationUnder fields codec.key).or (set.get? codec))
  | [], set, result, _ => by
    rw [compressedSet, Except.ok.injEq]
    constructor
    · rintro rfl
      exact ⟨fun _ h => absurd h List.not_mem_nil, fun _ h => absurd h List.not_mem_nil,
        fun _ => rfl⟩
    · rintro ⟨-, -, h⟩
      exact compressedSet_ext fun codec => (h codec).symm
  | (key, field) :: rest, set, result, hnodup => by
    obtain ⟨hnot, hrest⟩ := List.nodup_cons.mp hnodup
    have hnames : Table.names ((key, field) :: rest) = key :: Table.names rest := rfl
    unfold compressedSet
    rw [hnames, List.forall_mem_cons, ← isSome_ofKey?_iff, AllTexts, List.forall_mem_cons]
    cases hcodec : Codec.ofKey? key with
    | none => exact iff_of_false (fun h => by cases h) fun h => by cases h.1.1
    | some codec =>
      obtain rfl := ofKey?_eq_some_iff.mp hcodec
      cases field with
      | number value =>
        refine iff_of_false (fun h => by cases h) ?_
        rintro ⟨-, ⟨⟨url, h⟩, -⟩, -⟩
        cases h
      | text url =>
        dsimp only
        rw [compressedSet_eq_ok_iff hrest]
        simp only [locationUnder_cons hnot]
        exact and_congr (and_iff_right Option.isSome_some).symm
          (and_congr_left' (and_iff_right ⟨url, rfl⟩).symm)

/-- **A compressed set** offers the families of its keys, each with the place under its key. -/
theorem inferObject_of_compressed (sorted : fields.Sorted) (hcube : isCube fields ≠ true)
    (hcompressed : isCompressed fields = true) {value : Value} :
    inferObject fields = .ok value ↔ AllTexts fields ∧ ∃ set : CompressedSet,
      (∀ codec, set.get? codec = locationUnder fields codec.key) ∧
        value = .texture (.compressed set) := by
  have hempty : ∀ codec, CompressedSet.empty.get? codec = none := fun codec => by
    cases codec <;> rfl
  have hkeys := (isCompressed_iff.mp hcompressed).2
  rw [inferObject, if_neg hcube, if_pos hcompressed]
  simp only [bind_eq_ok, compressedSet_eq_ok_iff sorted.nodup, pure_eq_ok, hempty, Option.or_none,
    and_iff_right hkeys]
  constructor
  · rintro ⟨set, ⟨texts, offers⟩, rfl⟩
    exact ⟨texts, set, offers, rfl⟩
  · rintro ⟨texts, set, offers, rfl⟩
    exact ⟨set, ⟨texts, offers⟩, rfl⟩

/-! ## 5. Vectors and colours -/

/-- **What the components of a vector are the sequence of.** -/
theorem inferVector_of_components (sorted : fields.Sorted) {components : List String}
    (row : components ∈ componentKeys) (keys : fields.HasKeys components) {values : List Double}
    (numbers : NumbersOf fields components values) :
    ∃ value, inferVector fields = some value ∧ inferSequence values = .ok value := by
  have gives : fields.Gives components (values.map .number) :=
    List.forall₂_map_right_iff.mpr numbers
  simp only [componentKeys, List.mem_cons, List.not_mem_nil, or_false] at row
  rcases row with rfl | rfl | rfl | rfl <;>
    simp only [NumbersOf, List.forall₂_cons_left_iff, List.forall₂_nil_left_iff] at numbers
  · obtain ⟨x, _, -, ⟨y, _, -, rfl, rfl⟩, rfl⟩ := numbers
    have horder : Table.Sorted [("x", Field.number x), ("y", .number y)] :=
      show ["x", "y"].Pairwise (· < ·) by decide
    rw [sorted.eq_of_gives keys gives horder (List.Perm.refl _)]
    exact ⟨_, rfl, rfl⟩
  · obtain ⟨x, _, -, ⟨y, _, -, ⟨z, _, -, rfl, rfl⟩, rfl⟩, rfl⟩ := numbers
    have horder : Table.Sorted [("x", Field.number x), ("y", .number y), ("z", .number z)] :=
      show ["x", "y", "z"].Pairwise (· < ·) by decide
    rw [sorted.eq_of_gives keys gives horder (List.Perm.refl _)]
    exact ⟨_, rfl, rfl⟩
  · obtain ⟨x, _, -, ⟨y, _, -, ⟨z, _, -, ⟨w, _, -, rfl, rfl⟩, rfl⟩, rfl⟩, rfl⟩ := numbers
    have horder : Table.Sorted
        [("w", Field.number w), ("x", .number x), ("y", .number y), ("z", .number z)] :=
      show ["w", "x", "y", "z"].Pairwise (· < ·) by decide
    rw [sorted.eq_of_gives keys gives horder (@List.perm_append_comm _ [_, _, _] [_])]
    exact ⟨_, rfl, rfl⟩
  · obtain ⟨r, _, -, ⟨g, _, -, ⟨b, _, -, ⟨a, _, -, rfl, rfl⟩, rfl⟩, rfl⟩, rfl⟩ := numbers
    have horder : Table.Sorted
        [("alpha", Field.number a), ("blue", .number b), ("green", .number g), ("red", .number r)] :=
      show ["alpha", "blue", "green", "red"].Pairwise (· < ·) by decide
    rw [sorted.eq_of_gives keys gives horder (List.reverse_perm _).symm]
    exact ⟨_, rfl, rfl⟩

theorem components_of_inferVector {value : Value} (h : inferVector fields = some value) :
    ∃ components ∈ componentKeys, ∃ values, fields.HasKeys components ∧
      NumbersOf fields components values ∧ inferSequence values = .ok value := by
  unfold inferVector at h
  split at h
  · rename_i x y
    cases h
    exact ⟨["x", "y"], by decide, [x, y], fun _ => Iff.rfl, .cons rfl (.cons rfl .nil), rfl⟩
  · rename_i x y z
    cases h
    exact ⟨["x", "y", "z"], by decide, [x, y, z], fun _ => Iff.rfl,
      .cons rfl (.cons rfl (.cons rfl .nil)), rfl⟩
  · rename_i w x y z
    cases h
    exact ⟨["x", "y", "z", "w"], by decide, [x, y, z, w],
      fun _ => (@List.perm_append_comm _ ["w"] ["x", "y", "z"]).mem_iff,
      .cons rfl (.cons rfl (.cons rfl (.cons rfl .nil))), rfl⟩
  · rename_i a b g r
    cases h
    exact ⟨["red", "green", "blue", "alpha"], by decide, [r, g, b, a],
      fun _ => (List.reverse_perm ["red", "green", "blue", "alpha"]).mem_iff,
      .cons rfl (.cons rfl (.cons rfl (.cons rfl .nil))), rfl⟩
  · cases h

/-- **A vector or a colour is what the sequence of its components is.** -/
theorem inferVector_eq_some_iff (sorted : fields.Sorted) {value : Value} :
    inferVector fields = some value ↔
      ∃ components ∈ componentKeys, ∃ values, fields.HasKeys components ∧
        NumbersOf fields components values ∧ inferSequence values = .ok value := by
  refine ⟨components_of_inferVector, ?_⟩
  rintro ⟨components, row, values, keys, numbers, h⟩
  obtain ⟨found, hvector, hsequence⟩ := inferVector_of_components sorted row keys numbers
  rw [hsequence] at h
  rw [hvector, Except.ok.inj h]

end Objects

end Literal

end ShaderFabric
