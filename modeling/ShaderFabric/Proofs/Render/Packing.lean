/-
# What is read from a packed block

A block is the bytes of its fields in a row, with zeros between them.  So the values that were
packed are read back at the places of their fields, and every byte that is part of no number is
zero.

* `Kind.read?` -- the value of a type at a place of a block;
* `read?_valueBytes` -- what is read where the bytes of a value stand;
* `pack_eq` -- the block in one piece;
* `sound_and_holds` -- layout and packing together.
-/
import Mathlib.Data.List.Nodup
import ShaderFabric.Proofs.Number.Bytes
import ShaderFabric.Proofs.Render.Placement

namespace ShaderFabric

/-! ## 1. Reading -/

/-- The number at a place. -/
def readSingle (bytes : List UInt8) (place : Nat) : Single :=
  ⟨UInt32.ofNat (ByteOrder.leastFirst.word bytes place)⟩

/-- Three numbers in a column. -/
def readTriple (bytes : List UInt8) (place : Nat) : Triple :=
  ⟨readSingle bytes place, readSingle bytes (place + 4), readSingle bytes (place + 8)⟩

/-- Four numbers in a column. -/
def readQuad (bytes : List UInt8) (place : Nat) : Quad :=
  ⟨readSingle bytes place, readSingle bytes (place + 4), readSingle bytes (place + 8),
    readSingle bytes (place + 12)⟩

/-- The value of a type at a place; a boolean is a word that is zero or one, and the columns of a
matrix are sixteen bytes apart. -/
def Kind.read? (bytes : List UInt8) (place : Nat) : Kind → Option Value
  | bool =>
    match ByteOrder.leastFirst.word bytes place with
    | 0 => some (.bool false)
    | 1 => some (.bool true)
    | _ => none
  | float => some (.float (readSingle bytes place))
  | vec2 => some (.vec2 (readSingle bytes place) (readSingle bytes (place + 4)))
  | vec3 => some (.vec3 (readTriple bytes place))
  | vec4 => some (.vec4 (readQuad bytes place))
  | mat3 =>
    some (.mat3 (readTriple bytes place) (readTriple bytes (place + 16))
      (readTriple bytes (place + 32)))
  | mat4 =>
    some (.mat4 (readQuad bytes place) (readQuad bytes (place + 16)) (readQuad bytes (place + 32))
      (readQuad bytes (place + 48)))
  | sampler2D | samplerCube | channels => none

/-! ## 2. The bytes of a value -/

namespace Layout

theorem number_bytes (x : Single) : ByteOrder.number x.bytes = x.bits.toNat := by
  have := x.bits.toNat_lt
  simp [ByteOrder.number, Single.bytes, Nat.shiftRight_eq_div_pow]
  omega

@[simp] theorem numberBytes_cons (x : Single) (rest : List Single) :
    numberBytes (x :: rest) = x.bytes ++ numberBytes rest :=
  List.flatMap_cons

theorem numberBytes_append (xs ys : List Single) :
    numberBytes (xs ++ ys) = numberBytes xs ++ numberBytes ys :=
  List.flatMap_append

/-- A number is read where its bytes stand. -/
theorem readSingle_bytes (x : Single) (before after : List UInt8) :
    readSingle (before ++ (x.bytes ++ after)) before.length = x := by
  have hword := ByteOrder.word_append .leastFirst before after (rfl : x.bytes.length = 4)
  rw [readSingle, hword, ByteOrder.read, number_bytes, UInt32.ofNat_toNat]

/-- Numbers in a row are read one by one. -/
theorem readSingle_numberBytes : ∀ (xs : List Single) (before after : List UInt8) (index : Nat)
    (x : Single), xs[index]? = some x →
      readSingle (before ++ (numberBytes xs ++ after)) (before.length + 4 * index) = x
  | x :: rest, before, after, 0, _, rfl => by
    rw [numberBytes_cons, List.append_assoc]
    exact readSingle_bytes x before _
  | x :: rest, before, after, index + 1, y, h => by
    have hsize : x.bytes.length = 4 := rfl
    have hplace : before.length + 4 * (index + 1) = (before ++ x.bytes).length + 4 * index := by
      rw [List.length_append, hsize]
      omega
    have hlater := readSingle_numberBytes rest (before ++ x.bytes) after index y h
    rwa [numberBytes_cons, hplace, List.append_assoc, ← List.append_assoc before]

theorem readTriple_numberBytes (v : Triple) (before after : List UInt8) :
    readTriple (before ++ (numberBytes v.toList ++ after)) before.length = v := by
  have number := readSingle_numberBytes v.toList before after
  cases v
  simp only [readTriple, Triple.mk.injEq]
  exact ⟨number 0 _ rfl, number 1 _ rfl, number 2 _ rfl⟩

theorem readQuad_numberBytes (v : Quad) (before after : List UInt8) :
    readQuad (before ++ (numberBytes v.toList ++ after)) before.length = v := by
  have number := readSingle_numberBytes v.toList before after
  cases v
  simp only [readQuad, Quad.mk.injEq]
  exact ⟨number 0 _ rfl, number 1 _ rfl, number 2 _ rfl, number 3 _ rfl⟩

theorem length_columnBytes (v : Triple) : (columnBytes v).length = 16 := rfl

theorem length_quadBytes (v : Quad) : (numberBytes v.toList).length = 16 := rfl

theorem readTriple_columnBytes (v : Triple) (before after : List UInt8) :
    readTriple (before ++ (columnBytes v ++ after)) before.length = v := by
  rw [columnBytes, List.append_assoc]
  exact readTriple_numberBytes v before _

/-- **A value is read where its bytes stand.** -/
theorem read?_valueBytes {value : Value} {data : List UInt8} (h : valueBytes? value = some data)
    (before after : List UInt8) :
    value.kind.read? (before ++ (data ++ after)) before.length = some value := by
  cases value with
  | bool value =>
    cases h
    have hlt : value.toNat < 0x100000000 := Nat.lt_of_le_of_lt value.toNat_le (by decide)
    have hword := ByteOrder.word_wordBytes hlt before after
    simp only [Value.kind, Kind.read?, hword]
    cases value <;> rfl
  | float x =>
    cases h
    have number := readSingle_numberBytes [x] before after
    simp only [Value.kind, Kind.read?, Option.some.injEq, Value.float.injEq]
    exact number 0 _ rfl
  | vec2 x y =>
    cases h
    have number := readSingle_numberBytes [x, y] before after
    simp only [Value.kind, Kind.read?, Option.some.injEq, Value.vec2.injEq]
    exact ⟨number 0 _ rfl, number 1 _ rfl⟩
  | vec3 v =>
    cases h
    exact congrArg (fun v => some (Value.vec3 v)) (readTriple_numberBytes v before after)
  | vec4 v =>
    cases h
    exact congrArg (fun v => some (Value.vec4 v)) (readQuad_numberBytes v before after)
  | mat3 a b c =>
    cases h
    have ha := readTriple_columnBytes a before (columnBytes b ++ (columnBytes c ++ after))
    have hb := readTriple_columnBytes b (before ++ columnBytes a) (columnBytes c ++ after)
    have hc := readTriple_columnBytes c (before ++ (columnBytes a ++ columnBytes b)) after
    simp only [List.append_assoc, List.length_append, length_columnBytes, Nat.reduceAdd] at hb hc
    simp only [Value.kind, Kind.read?, List.append_assoc, ha, hb, hc]
  | mat4 a b c d =>
    cases h
    have ha := readQuad_numberBytes a before
      (numberBytes b.toList ++ (numberBytes c.toList ++ (numberBytes d.toList ++ after)))
    have hb := readQuad_numberBytes b (before ++ numberBytes a.toList)
      (numberBytes c.toList ++ (numberBytes d.toList ++ after))
    have hc := readQuad_numberBytes c
      (before ++ (numberBytes a.toList ++ numberBytes b.toList)) (numberBytes d.toList ++ after)
    have hd := readQuad_numberBytes d
      (before ++ (numberBytes a.toList ++ (numberBytes b.toList ++ numberBytes c.toList))) after
    simp only [List.append_assoc, List.length_append, length_quadBytes, Nat.reduceAdd] at hb hc hd
    simp only [Value.kind, Kind.read?, numberBytes_append, List.append_assoc, ha, hb, hc, hd]
  | texture source => cases h
  | cube source => cases h
  | channels selector => cases h

/-- The bytes of a value are as many as its type takes. -/
theorem length_valueBytes {value : Value} {data : List UInt8} (h : valueBytes? value = some data) :
    data.length = value.kind.plainBytes := by
  cases value <;> cases h <;> rfl

theorem isSome_valueBytes (value : Value) : (valueBytes? value).isSome = value.kind.isPlain := by
  cases value <;> rfl

/-- Only the last bytes of a column of three are part of no number. -/
theorem hasByte_of_lt {kind : Kind} {index : Nat} (h : index < kind.plainBytes)
    (hgap : kind = .mat3 → index % 16 < 12) : kind.HasByte index := by
  cases kind with
  | sampler2D | samplerCube | channels => exact absurd h (Nat.not_lt_zero index)
  | _ =>
    simp only [Kind.plainBytes, Kind.shape?, span, Option.map_some, Option.getD_some] at h
    simp at h hgap
    exact ⟨_, _, rfl, index / 16, by omega, index % 16 / 4, by omega, by omega, by omega⟩

theorem zero_of_columnBytes {v : Triple} {index : Nat} {byte : UInt8} (h : 12 ≤ index)
    (hbyte : (columnBytes v)[index]? = some byte) : byte = 0 := by
  have hlength : (numberBytes v.toList).length = 12 := rfl
  rw [columnBytes, List.getElem?_append_right (hlength ▸ h)] at hbyte
  exact List.eq_of_mem_replicate (List.mem_of_getElem? hbyte)

theorem zero_of_columns : ∀ (columns : List Triple) {index : Nat} {byte : UInt8},
    12 ≤ index % 16 → (columns.flatMap columnBytes)[index]? = some byte → byte = 0
  | [], _, _, _, hbyte => by simp at hbyte
  | v :: rest, index, byte, hgap, hbyte => by
    rw [List.flatMap_cons, List.getElem?_append, length_columnBytes] at hbyte
    split at hbyte
    · exact zero_of_columnBytes (by omega) hbyte
    · exact zero_of_columns rest (by omega) hbyte

/-- **Bytes of a value that are part of no number are zero.** -/
theorem zero_of_valueBytes {value : Value} {data : List UInt8} (h : valueBytes? value = some data)
    {index : Nat} {byte : UInt8} (hbyte : data[index]? = some byte)
    (hgap : ¬ value.kind.HasByte index) : byte = 0 := by
  have hlt : index < value.kind.plainBytes :=
    length_valueBytes h ▸ (List.getElem?_eq_some_iff.mp hbyte).1
  obtain ⟨hkind, hlast⟩ := Classical.not_imp.mp fun hnumber => hgap (hasByte_of_lt hlt hnumber)
  cases value with
  | mat3 a b c =>
    cases h
    refine zero_of_columns [a, b, c] (Nat.le_of_not_lt hlast) ?_
    simpa using hbyte
  | _ => cases hkind

/-! ## 3. The block -/

/-- A binding of the name and the type of a field, with the bytes of its value. -/
def Filled (bindings : List Binding) (field : BlockField) : Prop :=
  ∃ binding data, binding? bindings field.name = some binding ∧
    binding.value.kind = field.kind ∧ valueBytes? binding.value = some data

/-- The bytes that a field is filled with. -/
def fieldBytes (bindings : List Binding) (field : BlockField) : List UInt8 :=
  ((binding? bindings field.name).bind fun binding => valueBytes? binding.value).getD []

/-- Fields in a row with what they are filled with, and zeros between them. -/
def blockBytes (bindings : List Binding) : Nat → List BlockField → List UInt8
  | _, [] => []
  | start, field :: rest =>
    List.replicate (field.offset - start) 0 ++ fieldBytes bindings field
      ++ blockBytes bindings field.stop rest

section Blocks

variable {bindings : List Binding}

theorem Filled.fieldBytes {field : BlockField} (h : Filled bindings field) :
    ∃ binding, binding? bindings field.name = some binding ∧ binding.value.kind = field.kind ∧
      valueBytes? binding.value = some (fieldBytes bindings field) := by
  obtain ⟨binding, data, hbinding, hkind, hdata⟩ := h
  refine ⟨binding, hbinding, hkind, ?_⟩
  simp [Layout.fieldBytes, hbinding, hdata]

theorem Filled.length {field : BlockField} (h : Filled bindings field) :
    (Layout.fieldBytes bindings field).length = field.kind.plainBytes := by
  obtain ⟨binding, -, hkind, hdata⟩ := h.fieldBytes
  rw [length_valueBytes hdata, hkind]

theorem Filled.packField {field : BlockField} (h : Filled bindings field) (bytes : List UInt8) :
    packField bindings bytes field =
      overwrite bytes field.offset (Layout.fieldBytes bindings field) := by
  obtain ⟨binding, hbinding, -, hdata⟩ := h.fieldBytes
  simp only [Layout.packField, hbinding, Option.bind_some, hdata]

/-- Writing into zeros. -/
theorem overwrite_zeros (before data : List UInt8) {room offset : Nat}
    (hstart : before.length ≤ offset) (hstop : offset + data.length ≤ before.length + room) :
    overwrite (before ++ List.replicate room 0) offset data =
      before ++ (List.replicate (offset - before.length) 0 ++ data) ++
        List.replicate (before.length + room - (offset + data.length)) 0 := by
  have hgap : min (offset - before.length) room = offset - before.length := by omega
  have hleft : room - (offset + data.length - before.length) =
      before.length + room - (offset + data.length) := by omega
  rw [overwrite, List.take_append, List.take_of_length_le hstart, List.take_replicate, hgap,
    List.drop_append, List.drop_eq_nil_of_le (by omega), List.drop_replicate, hleft,
    List.nil_append, List.append_assoc before]

/-- **What packing leaves behind a part that is done**: the fields in a row, and zeros after
them. -/
theorem foldl_packField : ∀ (fields : List BlockField) (before : List UInt8) (room : Nat),
    Follow before.length fields → (∀ field ∈ fields, Filled bindings field) →
      lastStop before.length fields ≤ before.length + room →
        fields.foldl (packField bindings) (before ++ List.replicate room 0) =
          before ++ (blockBytes bindings before.length fields ++
            List.replicate (before.length + room - lastStop before.length fields) 0)
  | [], before, room, _, _, _ => by
    simp [blockBytes, lastStop]
  | field :: rest, before, room, ⟨⟨_, _, _, hfirst⟩, hfollow⟩, hfilled, hroom => by
    obtain ⟨hfield, hlater⟩ := List.forall_mem_cons.mp hfilled
    have hstart := hfirst.le
    have hstop : field.stop ≤ before.length + room := Nat.le_trans hfollow.bounds.1 hroom
    have hlength : field.stop = field.offset + (Layout.fieldBytes bindings field).length := by
      rw [hfield.length, BlockField.stop]
    -- The part that is done now ends where the field does.
    have hdone : field.stop = (before ++ (List.replicate (field.offset - before.length) 0 ++
        Layout.fieldBytes bindings field)).length := by
      simp only [List.length_append, List.length_replicate]
      omega
    rw [lastStop, ← Nat.add_sub_of_le hstop, hdone] at hroom
    have hrest := foldl_packField rest _ _ (hdone ▸ hfollow) hlater hroom
    rw [← hdone, Nat.add_sub_of_le hstop] at hrest
    rw [List.foldl_cons, hfield.packField, overwrite_zeros before _ hstart (by omega), ← hlength,
      hrest]
    simp only [blockBytes, lastStop, List.append_assoc]

theorem length_blockBytes : ∀ {fields : List BlockField} {start : Nat}, Follow start fields →
    (∀ field ∈ fields, Filled bindings field) →
      start + (blockBytes bindings start fields).length = lastStop start fields
  | [], _, _, _ => rfl
  | field :: rest, start, ⟨⟨_, _, _, hfirst⟩, hfollow⟩, hfilled => by
    obtain ⟨hfield, hlater⟩ := List.forall_mem_cons.mp hfilled
    have hrest := length_blockBytes hfollow hlater
    have hstart := hfirst.le
    have hstop : field.stop = field.offset + field.kind.plainBytes := rfl
    simp only [blockBytes, List.length_append, List.length_replicate, hfield.length, lastStop]
    omega

/-- A field of a row is filled at its place. -/
theorem exists_append_blockBytes : ∀ {fields : List BlockField} {start : Nat} {field : BlockField},
    Follow start fields → (∀ field ∈ fields, Filled bindings field) → field ∈ fields →
      ∃ before after, start + before.length = field.offset ∧
        blockBytes bindings start fields =
          before ++ (Layout.fieldBytes bindings field ++ after)
  | first :: rest, start, field, ⟨⟨_, _, _, hfirst⟩, hfollow⟩, hfilled, hfield => by
    have hstart := hfirst.le
    rcases List.mem_cons.mp hfield with rfl | hfield
    · refine ⟨List.replicate (field.offset - start) 0, blockBytes bindings field.stop rest, ?_, ?_⟩
      · rw [List.length_replicate, Nat.add_sub_of_le hstart]
      · rw [blockBytes, List.append_assoc]
    · obtain ⟨hfilledFirst, hlater⟩ := List.forall_mem_cons.mp hfilled
      obtain ⟨before, after, hplace, hbytes⟩ := exists_append_blockBytes hfollow hlater hfield
      refine ⟨List.replicate (first.offset - start) 0 ++ Layout.fieldBytes bindings first ++ before,
        after, ?_, ?_⟩
      · rw [← hplace, BlockField.stop, ← hfilledFirst.length]
        simp only [List.length_append, List.length_replicate]
        omega
      · rw [blockBytes, hbytes, List.append_assoc _ before]

/-- Bytes of a row that are part of no number are zero. -/
theorem zero_of_blockBytes : ∀ {fields : List BlockField} {start index : Nat} {byte : UInt8},
    Follow start fields → (∀ field ∈ fields, Filled bindings field) →
      (blockBytes bindings start fields)[index]? = some byte →
        (∀ field ∈ fields, ¬ field.HasByte (start + index)) → byte = 0
  | [], _, _, _, _, _, hbyte, _ => by simp [blockBytes] at hbyte
  | field :: rest, start, index, byte, ⟨⟨_, _, _, hfirst⟩, hfollow⟩, hfilled, hbyte, hgap => by
    obtain ⟨hfield, hlater⟩ := List.forall_mem_cons.mp hfilled
    obtain ⟨hgapField, hgapRest⟩ := List.forall_mem_cons.mp hgap
    have hstart := hfirst.le
    rw [blockBytes, List.append_assoc, List.getElem?_append, List.length_replicate,
      List.getElem?_append, hfield.length] at hbyte
    split at hbyte
    · -- before the field
      exact List.eq_of_mem_replicate (List.mem_of_getElem? hbyte)
    split at hbyte
    · -- in the field
      obtain ⟨binding, -, hkind, hdata⟩ := hfield.fieldBytes
      refine zero_of_valueBytes hdata hbyte fun hnumber => hgapField ?_
      exact ⟨index - (field.offset - start), hkind ▸ hnumber, by omega⟩
    · -- after the field
      have hplace : field.stop + (index - (field.offset - start) - field.kind.plainBytes) =
          start + index := by
        simp only [BlockField.stop]
        omega
      refine zero_of_blockBytes hfollow hlater hbyte ?_
      rwa [hplace]

end Blocks

/-! ## 4. Layout and packing -/

/-- **A block that holds values**: all writes are inside, each field reads as the value of the
binding of its name, and the bytes that are part of no number are zero. -/
structure Holds (layout : Layout) (bindings : List Binding) (bytes : List UInt8) : Prop where
  length : bytes.length = layout.size
  inside : ∀ field ∈ layout.fields, ∀ binding data, binding? bindings field.name = some binding →
    valueBytes? binding.value = some data → field.offset + data.length ≤ bytes.length
  reads : ∀ field ∈ layout.fields, ∃ binding ∈ bindings, binding.name = field.name ∧
    field.kind.read? bytes field.offset = some binding.value
  zero : ∀ place byte, bytes[place]? = some byte →
    (∀ field ∈ layout.fields, ¬ field.HasByte place) → byte = 0

theorem name_of_binding? {bindings : List Binding} {name : String} {binding : Binding}
    (h : binding? bindings name = some binding) : binding.name = name := by
  rw [binding?] at h
  simpa using List.find?_some h

/-- Among distinct names each binding is found by its own. -/
theorem binding?_of_mem {bindings : List Binding} {binding : Binding}
    (hnames : (bindings.map Binding.name).Nodup) (h : binding ∈ bindings) :
    binding? bindings binding.name = some binding := by
  obtain ⟨found, hfound⟩ : ∃ found, binding? bindings binding.name = some found :=
    Option.isSome_iff_exists.mp (List.find?_isSome.mpr ⟨binding, h, decide_eq_true rfl⟩)
  rw [hfound, List.inj_on_of_nodup_map hnames (List.mem_of_find?_eq_some hfound) h
    (name_of_binding? hfound)]

/-- The block in one piece. -/
theorem pack_eq {layout : Layout} {entries : List (String × Kind)} {bindings : List Binding}
    (hsound : layout.Sound entries) (hfilled : ∀ field ∈ layout.fields, Filled bindings field) :
    layout.pack bindings = blockBytes bindings 0 layout.fields ++
      List.replicate (layout.size - lastStop 0 layout.fields) 0 := by
  have hroom := lastStop_le (Nat.zero_le layout.size) hsound.inside
  have h := foldl_packField layout.fields [] layout.size hsound.follow hfilled
    (by rwa [List.length_nil, Nat.zero_add])
  rwa [List.length_nil, Nat.zero_add] at h

/-- **Packing fills a sound layout**, wherever each field has a binding of its name and type. -/
theorem holds_pack {layout : Layout} {entries : List (String × Kind)} {bindings : List Binding}
    (hsound : layout.Sound entries) (hfilled : ∀ field ∈ layout.fields, Filled bindings field) :
    layout.Holds bindings (layout.pack bindings) := by
  have hroom := lastStop_le (Nat.zero_le layout.size) hsound.inside
  have hblock := length_blockBytes hsound.follow hfilled
  have hlength : (layout.pack bindings).length = layout.size := by
    rw [pack_eq hsound hfilled, List.length_append, List.length_replicate]
    omega
  refine ⟨hlength, fun field hfield binding data hbinding hdata => ?_, fun field hfield => ?_,
    fun place byte hbyte hgap => ?_⟩
  · obtain ⟨_, _, hfound, hkind, -⟩ := hfilled field hfield
    cases hbinding.symm.trans hfound
    rw [hlength, length_valueBytes hdata, hkind]
    exact hsound.inside field hfield
  · obtain ⟨binding, hbinding, hkind, hdata⟩ := (hfilled field hfield).fieldBytes
    obtain ⟨before, after, hplace, hbytes⟩ :=
      exists_append_blockBytes hsound.follow hfilled hfield
    refine ⟨binding, List.mem_of_find?_eq_some hbinding, name_of_binding? hbinding, ?_⟩
    rw [pack_eq hsound hfilled, hbytes, ← hplace, Nat.zero_add, ← hkind, List.append_assoc,
      List.append_assoc]
    exact read?_valueBytes hdata before _
  · rw [pack_eq hsound hfilled, List.getElem?_append] at hbyte
    split at hbyte
    · refine zero_of_blockBytes hsound.follow hfilled hbyte ?_
      rwa [Nat.zero_add]
    · exact List.eq_of_mem_replicate (List.mem_of_getElem? hbyte)

/-- Bindings of the names and types of a layout fill its fields, in whatever order they come. -/
theorem filled_of_perm {layout : Layout} {entries : List (String × Kind)} {bindings : List Binding}
    (hsound : layout.Sound entries) (hnames : (bindings.map Binding.name).Nodup)
    (hentries : (bindings.map Binding.typed).Perm entries) :
    ∀ field ∈ layout.fields, Filled bindings field := by
  intro field hfield
  have hentry : field.typed ∈ entries.filter fun entry => entry.2.isPlain :=
    hsound.fields ▸ List.mem_map_of_mem hfield
  obtain ⟨hentry, hplain⟩ := List.mem_filter.mp hentry
  obtain ⟨binding, hbinding, heq⟩ := List.mem_map.mp (hentries.mem_iff.mpr hentry)
  obtain ⟨hname, hkind⟩ := Prod.mk.inj heq
  obtain ⟨data, hdata⟩ := Option.isSome_iff_exists.mp
    ((isSome_valueBytes binding.value).trans ((congrArg Kind.isPlain hkind).trans hplain))
  exact ⟨binding, data, hname ▸ binding?_of_mem hnames hbinding, hkind, hdata⟩

/-- **A block is laid out and packed soundly.**  Bindings of distinct names, whose plain values take
less than `2 ^ 31` bytes, have a sound layout; and whatever values are packed into it later, under
the same names and types, the block holds them. -/
theorem sound_and_holds {bindings : List Binding} (hnames : (bindings.map Binding.name).Nodup)
    (hbytes : plainBytes (bindings.map Binding.typed) < 0x80000000) :
    (ofBindings bindings).Sound (bindings.map Binding.typed) ∧
      ∀ later : List Binding, (later.map Binding.typed).Perm (bindings.map Binding.typed) →
        (ofBindings bindings).Holds later ((ofBindings bindings).pack later) := by
  have hsound : (ofBindings bindings).Sound (bindings.map Binding.typed) := sound_ofEntries hbytes
  refine ⟨hsound, fun later hlater => holds_pack hsound (filled_of_perm hsound ?_ hlater)⟩
  have hperm := hlater.map Prod.fst
  rw [List.map_map, List.map_map] at hperm
  exact hperm.nodup_iff.mpr hnames

namespace Example

/-- A binding of a value without a texture. -/
def binding (name : String) (value : Value) : Binding := ⟨name, name, [], value, none⟩

/-- A number in the tail of a column of three, and a matrix after a boolean. -/
def mixed : List Binding :=
  [binding "tint" (.vec3 ⟨.one, .zero, .one⟩), binding "gain" (.float .zero),
    binding "map" (.texture .neutral), binding "on" (.bool false),
    binding "turn" (.mat3 ⟨.one, .zero, .zero⟩ ⟨.zero, .one, .zero⟩ ⟨.zero, .zero, .one⟩)]

/-- Other values of the same names and types, in another order. -/
def changed : List Binding :=
  [binding "turn" (.mat3 ⟨.zero, .one, .one⟩ ⟨.one, .zero, .one⟩ ⟨.one, .one, .zero⟩),
    binding "on" (.bool true), binding "gain" (.float .one), binding "map" (.texture .neutral),
    binding "tint" (.vec3 ⟨.zero, .nan, .one⟩)]

theorem mixed_changed :
    (ofBindings mixed).fields.map BlockField.offset = [0, 12, 16, 32] ∧
      (ofBindings mixed).Sound (mixed.map Binding.typed) ∧
      (changed.map Binding.typed).Perm (mixed.map Binding.typed) ∧
      (ofBindings mixed).Holds changed ((ofBindings mixed).pack changed) := by
  obtain ⟨hsound, hholds⟩ := @sound_and_holds mixed (by decide) (by decide)
  have hperm : (changed.map Binding.typed).Perm (mixed.map Binding.typed) := by decide
  exact ⟨by decide, hsound, hperm, hholds changed hperm⟩

end Example

end Layout

end ShaderFabric
