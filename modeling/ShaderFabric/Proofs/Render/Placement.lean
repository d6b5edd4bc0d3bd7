/-
# Where the fields of a block lie

The rules of placement, said by the shape of a type: its numbers stand in columns of so many rows,
four bytes each.  A column of three is aligned as one of four, and so is every column of a matrix,
in sixteen bytes of its own.

* `Follow` -- fields in a row, each at the first multiple of its alignment after the one before it;
* `map_typed_placeFields`, `follow_placeFields` -- which fields a block has, and that they follow;
* `lastStop_placeFields_le` -- alignment adds no more than three quarters, so sizes fit words;
* `sound_ofEntries` -- the layout of names and types.
-/
import ShaderFabric.Render.Layout

namespace ShaderFabric

/-! ## 1. Shapes -/

/-- The columns and rows of a type whose values are numbers; a boolean is one number. -/
def Kind.shape? : Kind → Option (Nat × Nat)
  | bool | float => some (1, 1)
  | vec2 => some (1, 2)
  | vec3 => some (1, 3)
  | vec4 => some (1, 4)
  | mat3 => some (3, 3)
  | mat4 => some (4, 4)
  | sampler2D | samplerCube | channels => none

/-- The alignment of columns of some rows. -/
def alignment (columns rows : Nat) : Nat := if columns = 1 ∧ rows ≤ 2 then 4 * rows else 16

/-- The bytes that columns of some rows take; those of a single column end with its last row. -/
def span (columns rows : Nat) : Nat := if columns = 1 then 4 * rows else 16 * columns

theorem Kind.extent?_eq (kind : Kind) :
    kind.extent? = kind.shape?.map fun shape =>
      (alignment shape.1 shape.2, span shape.1 shape.2) := by
  cases kind <;> rfl

/-- Whether a type has values that stand in a block. -/
def Kind.isPlain (kind : Kind) : Bool := !kind.isTexture && kind != .channels

theorem Kind.isSome_shape? (kind : Kind) : kind.shape?.isSome = kind.isPlain := by
  cases kind <;> rfl

/-- The bytes that a value of a type takes in a block. -/
def Kind.plainBytes (kind : Kind) : Nat :=
  (kind.shape?.map fun shape => span shape.1 shape.2).getD 0

/-- The bytes that the values of some types take, alignment apart. -/
def plainBytes : List (String × Kind) → Nat
  | [] => 0
  | (_, kind) :: rest => kind.plainBytes + plainBytes rest

/-- Whether a byte is part of a number, counted from the start of a value: the rows of a column are
four bytes apart, and the columns sixteen. -/
def Kind.HasByte (kind : Kind) (index : Nat) : Prop :=
  ∃ columns rows, kind.shape? = some (columns, rows) ∧ ∃ column < columns, ∃ row < rows,
    16 * column + 4 * row ≤ index ∧ index < 16 * column + 4 * row + 4

/-- The name and the type of a binding. -/
def Binding.typed (binding : Binding) : String × Kind := (binding.name, binding.kind)

namespace BlockField

/-- The name and the type of a field. -/
def typed (field : BlockField) : String × Kind := (field.name, field.kind)

/-- Where a field ends. -/
def stop (field : BlockField) : Nat := field.offset + field.kind.plainBytes

/-- Whether a byte of the block is part of a number of a field. -/
def HasByte (field : BlockField) (place : Nat) : Prop :=
  ∃ index, field.kind.HasByte index ∧ place = field.offset + index

end BlockField

namespace Layout

/-! ## 2. Fields in a row -/

/-- The first multiple of a step that is not below a place. -/
structure FirstMultiple (step start place : Nat) : Prop where
  dvd : step ∣ place
  le : start ≤ place
  least : ∀ other, step ∣ other → start ≤ other → place ≤ other

theorem firstMultiple_roundUp {step : Nat} (hstep : 0 < step) (start : Nat) :
    FirstMultiple step start (roundUp start step) where
  dvd := Nat.dvd_mul_left step _
  le := by
    have h := Nat.lt_div_mul_add hstep (a := start + step - 1)
    simp only [roundUp]
    omega
  least := by
    rintro _ ⟨k, rfl⟩ h
    rw [roundUp, Nat.mul_comm]
    refine Nat.mul_le_mul_left step (Nat.le_of_lt_succ ?_)
    rw [Nat.div_lt_iff_lt_mul hstep, Nat.succ_mul, Nat.mul_comm]
    omega

/-- **Fields in a row** from a place on: each has a shape and starts at the first multiple of its
alignment after the end of the one before it. -/
def Follow : Nat → List BlockField → Prop
  | _, [] => True
  | start, field :: rest =>
    (∃ columns rows, field.kind.shape? = some (columns, rows) ∧
      FirstMultiple (alignment columns rows) start field.offset) ∧ Follow field.stop rest

/-- Where fields end that start after a place. -/
def lastStop : Nat → List BlockField → Nat
  | start, [] => start
  | _, field :: rest => lastStop field.stop rest

theorem alignment_pos {kind : Kind} {columns rows : Nat} (h : kind.shape? = some (columns, rows)) :
    0 < alignment columns rows := by
  cases kind <;> cases h <;> decide

theorem placeFields_of_plain {kind : Kind} {columns rows : Nat}
    (h : kind.shape? = some (columns, rows)) (start : Nat) (name : String)
    (rest : List (String × Kind)) :
    placeFields start ((name, kind) :: rest) =
      let field := ⟨name, kind, roundUp start (alignment columns rows)⟩
      field :: placeFields field.stop rest := by
  simp only [placeFields, Kind.extent?_eq, h, BlockField.stop, Kind.plainBytes, Option.map_some,
    Option.getD_some]

theorem placeFields_of_not_plain {kind : Kind} (h : kind.shape? = none) (start : Nat)
    (name : String) (rest : List (String × Kind)) :
    placeFields start ((name, kind) :: rest) = placeFields start rest := by
  simp only [placeFields, Kind.extent?_eq, h, Option.map_none]

/-- The fields are the plain entries, in order. -/
theorem map_typed_placeFields : ∀ (entries : List (String × Kind)) (start : Nat),
    (placeFields start entries).map BlockField.typed = entries.filter fun entry => entry.2.isPlain
  | [], _ => rfl
  | (name, kind) :: rest, start => by
    have hplain := kind.isSome_shape?
    cases h : kind.shape? with
    | none =>
      rw [h] at hplain
      rw [placeFields_of_not_plain h, map_typed_placeFields rest, List.filter_cons_of_neg]
      simp [← hplain]
    | some shape =>
      rw [h] at hplain
      rw [placeFields_of_plain h, List.map_cons, map_typed_placeFields rest,
        List.filter_cons_of_pos]
      · rfl
      · simp [← hplain]

theorem follow_placeFields : ∀ (entries : List (String × Kind)) (start : Nat),
    Follow start (placeFields start entries)
  | [], _ => trivial
  | (name, kind) :: rest, start => by
    cases h : kind.shape? with
    | none =>
      rw [placeFields_of_not_plain h]
      exact follow_placeFields rest start
    | some shape =>
      rw [placeFields_of_plain h]
      exact ⟨⟨_, _, h, firstMultiple_roundUp (alignment_pos h) start⟩, follow_placeFields rest _⟩

theorem endOfFields_eq : ∀ (entries : List (String × Kind)) (start : Nat),
    endOfFields start entries = lastStop start (placeFields start entries)
  | [], _ => rfl
  | (name, kind) :: rest, start => by
    cases h : kind.shape? with
    | none =>
      rw [placeFields_of_not_plain h, ← endOfFields_eq rest]
      simp only [endOfFields, Kind.extent?_eq, h, Option.map_none]
    | some shape =>
      rw [placeFields_of_plain h, lastStop, ← endOfFields_eq rest]
      simp only [endOfFields, Kind.extent?_eq, h, BlockField.stop, Kind.plainBytes, Option.map_some,
        Option.getD_some]

/-- Fields in a row lie between their start and their end. -/
theorem Follow.bounds : ∀ {fields : List BlockField} {start : Nat}, Follow start fields →
    start ≤ lastStop start fields ∧
      ∀ field ∈ fields, start ≤ field.offset ∧ field.stop ≤ lastStop start fields
  | [], start, _ => ⟨Nat.le_refl start, by simp⟩
  | field :: rest, start, ⟨⟨_, _, _, hfirst⟩, hrest⟩ => by
    obtain ⟨hle, hlater⟩ := hrest.bounds
    have hstop : field.offset ≤ field.stop := Nat.le_add_right ..
    have hstart := hfirst.le
    simp only [lastStop, List.forall_mem_cons]
    refine ⟨by omega, ⟨hstart, hle⟩, fun other hother => ?_⟩
    have := hlater other hother
    omega

theorem lastStop_le {size : Nat} : ∀ {fields : List BlockField} {start : Nat}, start ≤ size →
    (∀ field ∈ fields, field.stop ≤ size) → lastStop start fields ≤ size
  | [], _, hstart, _ => hstart
  | field :: rest, _, _, hfields => by
    obtain ⟨hfield, hrest⟩ := List.forall_mem_cons.mp hfields
    exact @lastStop_le _ rest _ hfield hrest

/-- Fields in a row do not overlap. -/
theorem Follow.pairwise : ∀ {fields : List BlockField} {start : Nat}, Follow start fields →
    fields.Pairwise fun before after => before.stop ≤ after.offset
  | [], _, _ => .nil
  | _ :: _, _, ⟨_, hrest⟩ =>
    .cons (fun other hother => (hrest.bounds.2 other hother).1) hrest.pairwise

/-! ## 3. Sizes -/

/-- What alignment may still cost after a place: a lone number before a column of sixteen bytes
wastes twelve, the most there is. -/
def slack (place : Nat) : Nat := if place % 16 = 4 then 3 else 0

theorem slack_cases (place : Nat) :
    slack place = 3 ∧ place % 16 = 4 ∨ slack place = 0 ∧ place % 16 ≠ 4 := by
  unfold slack
  split
  · exact .inl ⟨rfl, ‹_›⟩
  · exact .inr ⟨rfl, ‹_›⟩

/-- One field takes no more than seven quarters of its bytes, slack included. -/
theorem slack_stop {kind : Kind} {columns rows start : Nat}
    (h : kind.shape? = some (columns, rows)) (hstart : 4 ∣ start) :
    let stop := roundUp start (alignment columns rows) + kind.plainBytes
    4 ∣ stop ∧ 4 * (stop + slack stop) ≤ 4 * (start + slack start) + 7 * kind.plainBytes := by
  have hfrom := slack_cases start
  have hto := slack_cases (roundUp start (alignment columns rows) + kind.plainBytes)
  cases kind <;> cases h <;>
    (simp [roundUp, alignment, Kind.plainBytes, Kind.shape?, span] at hto ⊢; omega)

/-- **What the fields take in all**, alignment included. -/
theorem lastStop_placeFields_le : ∀ (entries : List (String × Kind)) (start : Nat), 4 ∣ start →
    4 * lastStop start (placeFields start entries) ≤
      4 * (start + slack start) + 7 * plainBytes entries
  | [], start, _ => by
    simp only [placeFields, lastStop, plainBytes]
    omega
  | (name, kind) :: rest, start, hstart => by
    cases h : kind.shape? with
    | none =>
      have hrest := lastStop_placeFields_le rest start hstart
      rw [placeFields_of_not_plain h, plainBytes]
      omega
    | some shape =>
      obtain ⟨hdvd, hle⟩ := slack_stop h hstart
      have hrest := lastStop_placeFields_le rest _ hdvd
      rw [placeFields_of_plain h, lastStop, plainBytes]
      simp only [BlockField.stop]
      omega

/-! ## 4. The layout of entries -/

/-- **A sound layout** of names and types: the fields are the plain entries in order, each at the
first multiple of its alignment after the one before it; they do not overlap, and all of them lie in
the block, which is a positive multiple of sixteen bytes and fits a word. -/
structure Sound (layout : Layout) (entries : List (String × Kind)) : Prop where
  fields : layout.fields.map BlockField.typed = entries.filter fun entry => entry.2.isPlain
  follow : Follow 0 layout.fields
  apart : layout.fields.Pairwise fun before after => before.stop ≤ after.offset
  inside : ∀ field ∈ layout.fields, field.stop ≤ layout.size
  size_pos : 0 < layout.size
  size_dvd : 16 ∣ layout.size
  size_lt : layout.size < 0x100000000

theorem sound_ofEntries {entries : List (String × Kind)} (h : plainBytes entries < 0x80000000) :
    (ofEntries entries).Sound entries := by
  have hfollow := follow_placeFields entries 0
  have hsize := firstMultiple_roundUp (by decide : 0 < 16) (max (endOfFields 0 entries) 4)
  have hend : lastStop 0 (placeFields 0 entries) ≤ (ofEntries entries).size :=
    endOfFields_eq entries 0 ▸ Nat.le_trans (Nat.le_max_left ..) hsize.le
  have hleast : 4 ≤ (ofEntries entries).size := Nat.le_trans (Nat.le_max_right ..) hsize.le
  refine ⟨map_typed_placeFields entries 0, hfollow, hfollow.pairwise, fun field hfield => ?_,
    Nat.lt_of_lt_of_le (by decide) hleast, hsize.dvd, ?_⟩
  · exact Nat.le_trans (hfollow.bounds.2 field hfield).2 hend
  · have hle := lastStop_placeFields_le entries 0 (Nat.dvd_zero 4)
    have hslack : slack 0 = 0 := rfl
    simp only [ofEntries, roundUp, endOfFields_eq]
    omega

end Layout

end ShaderFabric
