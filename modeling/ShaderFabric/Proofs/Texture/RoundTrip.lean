/-
# Writing a texture and reading it back

What is written for a texture is a container of it, and what is read from any container can be
written again.  The writer pads all that it has written so far and the reader rounds the places of
levels; both agree because every level starts at a multiple of four, so that a level stands in the
container as if it were padded by itself.

* `Texture.Sound` -- what a container can hold;
* `write_eq` -- the container is its header and then one block of bytes for each level;
* `readLevels_flatMap_levelBlock` -- levels are found again where they were written;
* `read_write` -- a sound texture is read back;
* `Container.sound` -- what is in a container is a sound texture;
* `read_write_texture` -- both directions.
-/
import ShaderFabric.Proofs.Number.Bytes
import ShaderFabric.Proofs.Texture.Container

namespace ShaderFabric

namespace Ktx

/-! ## 1. Textures that a container can hold -/

/-- The edges fit words and are not zero; there are levels, no more than halving the edges gives;
their lengths fit words, and are the ones that follow from the edges if any do. -/
structure Texture.Sound (texture : Texture) : Prop where
  width_pos : 0 < texture.width
  width_lt : texture.width < 0x100000000
  height_pos : 0 < texture.height
  height_lt : texture.height < 0x100000000
  levels_ne : texture.levels ≠ []
  count : texture.levels.length ≤ (max texture.width texture.height).size
  short : ∀ data ∈ texture.levels, data.length < 0x100000000
  sized : ∀ level data, texture.levels[level]? = some data → ∀ expected,
    texture.format.levelBytes? (levelEdge texture.width level) (levelEdge texture.height level) =
      some expected → data.length = expected

/-! ## 2. Levels -/

/-- A level as it stands in a container: the word of its size, its data, and zeros up to the next
multiple of four. -/
def levelBlock (data : List UInt8) : List UInt8 :=
  ByteOrder.wordBytes data.length ++ pad data

theorem length_pad (bytes : List UInt8) : (pad bytes).length = padded bytes.length := by
  simp only [pad, padded, List.length_append, List.length_replicate]
  omega

theorem length_levelBlock (data : List UInt8) :
    (levelBlock data).length = 4 + padded data.length := by
  rw [levelBlock, List.length_append, ByteOrder.length_wordBytes, length_pad]

/-- Behind bytes of whole words only the last ones need padding. -/
theorem pad_append {before : List UInt8} (h : 4 ∣ before.length) (data : List UInt8) :
    pad (before ++ data) = before ++ pad data := by
  have hzeros : padded (before.length + data.length) - (before.length + data.length) =
      padded data.length - data.length := by
    simp only [padded]
    omega
  rw [pad, pad, List.length_append, hzeros, List.append_assoc]

theorem writeLevel_eq {container : List UInt8} (h : 4 ∣ container.length) (data : List UInt8) :
    writeLevel container data = container ++ levelBlock data := by
  rw [writeLevel, pad_append _ data, levelBlock, List.append_assoc]
  rw [List.length_append, ByteOrder.length_wordBytes]
  exact Nat.dvd_add h (Nat.dvd_refl 4)

/-- **The writer appends one block a level.**  The invariant is that the container is of whole words
before each of them. -/
theorem foldl_writeLevel : ∀ (levels : List (List UInt8)) (container : List UInt8),
    4 ∣ container.length →
      levels.foldl writeLevel container = container ++ levels.flatMap levelBlock
  | [], container, _ => (List.append_nil container).symm
  | data :: rest, container, h => by
    have hnext : 4 ∣ (container ++ levelBlock data).length := by
      simp only [List.length_append, length_levelBlock, padded]
      omega
    rw [List.foldl_cons, writeLevel_eq h, foldl_writeLevel rest _ hnext, List.flatMap_cons,
      List.append_assoc]

theorem write_eq (code width height : Nat) (levels : List (List UInt8)) :
    write code width height levels =
      writeHeader code width height levels.length ++ levels.flatMap levelBlock :=
  foldl_writeLevel levels _ ⟨16, rfl⟩

/-- The parts of a written level before other bytes. -/
theorem levelBlock_append (data after : List UInt8) :
    levelBlock data ++ after = ByteOrder.wordBytes data.length ++
      (data ++ (List.replicate (padded data.length - data.length) 0 ++ after)) := by
  simp only [levelBlock, pad, List.append_assoc]

section Levels

variable {format : CompressedFormat} {width height : Nat}

/-- A level is read at the place where it was written. -/
theorem readLevel_levelBlock (before after : List UInt8) {data : List UInt8} {level : Nat}
    (hshort : data.length < 0x100000000)
    (hsized : ∀ expected,
      format.levelBytes? (levelEdge width level) (levelEdge height level) = some expected →
        data.length = expected) :
    readLevel .leastFirst format width height (before ++ (levelBlock data ++ after)) level
      before.length = .ok data := by
  rw [levelBlock_append]
  have hword := ByteOrder.word_wordBytes hshort before
    (data ++ (List.replicate (padded data.length - data.length) 0 ++ after))
  refine readLevel_eq_ok_iff.mpr ⟨⟨?_, ?_, by rwa [hword]⟩, ?_⟩
  · simp only [List.length_append, ByteOrder.length_wordBytes]
    omega
  · simp only [hword, List.length_append, ByteOrder.length_wordBytes]
    omega
  · rw [levelData, hword, ← List.drop_drop, List.drop_left,
      List.drop_left' (ByteOrder.length_wordBytes _), List.take_left]

/-- **Levels are read where they were written**, whatever their lengths.  The invariant is that each
of them starts at a multiple of four. -/
theorem readLevels_flatMap_levelBlock : ∀ (levels : List (List UInt8)) (before : List UInt8)
    (level : Nat), 4 ∣ before.length →
      (∀ data ∈ levels, data.length < 0x100000000) →
      (∀ i data, levels[i]? = some data → ∀ expected,
        format.levelBytes? (levelEdge width (level + i)) (levelEdge height (level + i)) =
          some expected → data.length = expected) →
      readLevels .leastFirst format width height (before ++ levels.flatMap levelBlock) levels.length
        level before.length = .ok levels
  | [], _, _, _, _, _ => rfl
  | data :: rest, before, level, hbefore, hshort, hsized => by
    have hfirst := readLevel_levelBlock before (rest.flatMap levelBlock)
      (hshort data List.mem_cons_self) (hsized 0 data rfl)
    have hnext : padded (before.length + 4 + data.length) = (before ++ levelBlock data).length := by
      rw [List.length_append, length_levelBlock, padded, padded]
      omega
    have hlater := readLevels_flatMap_levelBlock rest (before ++ levelBlock data) (level + 1)
      (hnext ▸ Nat.dvd_mul_left 4 _) (fun d hd => hshort d (List.mem_cons_of_mem _ hd))
      (fun i d hd => by
        rw [Nat.add_assoc, Nat.add_comm 1]
        exact hsized (i + 1) d hd)
    rw [List.append_assoc, ← hnext] at hlater
    simp only [List.flatMap_cons, List.length_cons, readLevels, bind_eq_ok, pure_eq_ok]
    exact ⟨data, hfirst, rest, hlater, rfl⟩

end Levels

/-! ## 3. Both directions -/

/-- The words of a header that is written, with whatever follows it. -/
theorem ofBytes_writeHeader (code width height count : Nat) (after : List UInt8) :
    Header.ofBytes .leastFirst (writeHeader code width height count ++ after) =
      { texelType := 0
        formatCode := ByteOrder.number (ByteOrder.wordBytes code)
        width := ByteOrder.number (ByteOrder.wordBytes width)
        height := ByteOrder.number (ByteOrder.wordBytes height)
        depth := 0
        elements := 0
        faces := 1
        levelWord := ByteOrder.number (ByteOrder.wordBytes count)
        keyBytes := 0 } :=
  rfl

/-- The codes of formats fit words. -/
theorem code_lt {code : Nat} {format : CompressedFormat}
    (h : CompressedFormat.ofCode? code = some format) : code < 0x100000000 := by
  have hcodes : ∀ entry ∈ CompressedFormat.codes, entry.1 < 0x100000000 := by decide
  obtain ⟨before, after, hsplit, -⟩ := List.lookup_eq_some_iff.mp h
  exact hcodes (code, format) (hsplit ▸ by simp)

namespace Texture.Sound

variable {texture : Texture} (h : texture.Sound)

include h

theorem count_pos : 0 < texture.levels.length := List.length_pos_iff.mpr h.levels_ne

theorem count_lt : texture.levels.length < 0x100000000 := by
  have hbits : (max texture.width texture.height).size ≤ 32 :=
    Nat.size_le.mpr (Nat.max_lt.mpr ⟨h.width_lt, h.height_lt⟩)
  have := h.count
  omega

/-- The header that is written for a texture. -/
theorem ofBytes_write {code : Nat} (hcode : code < 0x100000000) :
    Header.ofBytes .leastFirst (write code texture.width texture.height texture.levels) =
      { texelType := 0, formatCode := code, width := texture.width, height := texture.height,
        depth := 0, elements := 0, faces := 1, levelWord := texture.levels.length,
        keyBytes := 0 } := by
  rw [write_eq, ofBytes_writeHeader, ByteOrder.number_wordBytes hcode,
    ByteOrder.number_wordBytes h.width_lt, ByteOrder.number_wordBytes h.height_lt,
    ByteOrder.number_wordBytes h.count_lt]

/-- The levels that are written for a texture. -/
theorem readLevels_write (code : Nat) :
    readLevels .leastFirst texture.format texture.width texture.height
      (write code texture.width texture.height texture.levels) texture.levels.length 0 headerSize =
        .ok texture.levels := by
  rw [write_eq]
  exact readLevels_flatMap_levelBlock texture.levels (writeHeader ..) 0 ⟨16, rfl⟩ h.short
    (by simpa using h.sized)

/-- What is written for a texture is a container. -/
theorem container_write {code : Nat}
    (hcode : CompressedFormat.ofCode? code = some texture.format) :
    Container .leastFirst texture.format
      (write code texture.width texture.height texture.levels) := by
  have hheader := h.ofBytes_write (code_lt hcode)
  have hcount : max texture.levels.length 1 = texture.levels.length := Nat.max_eq_left h.count_pos
  obtain ⟨hholds, -⟩ := (readLevels_eq_ok_iff _ _ _ _).mp (h.readLevels_write code)
  simp only [Nat.zero_add] at hholds
  refine ⟨?_, ?_, ?_, ?_, ?_⟩
  · rw [write_eq, writeHeader, List.append_assoc]
    exact List.prefix_append _ _
  · rw [write_eq, List.length_append]
    exact Nat.le_add_right headerSize _
  · rw [write_eq]
    exact ByteOrder.number_wordBytes (by decide)
  · rw [hheader]
    exact ⟨rfl, Nat.zero_le 1, rfl, rfl, Nat.ne_of_gt h.width_pos, Nat.ne_of_gt h.height_pos,
      hcode, Nat.le_trans (Nat.le_of_eq hcount) h.count⟩
  · rw [hheader]
    simp only [Header.levelCount, Header.levelStart, hcount]
    exact hholds

/-- The texture in what is written. -/
theorem contained_write {code : Nat} (hcode : code < 0x100000000) :
    contained .leastFirst texture.format
      (write code texture.width texture.height texture.levels) = texture := by
  have hheader := h.ofBytes_write hcode
  have hcount : max texture.levels.length 1 = texture.levels.length := Nat.max_eq_left h.count_pos
  obtain ⟨-, hlevels⟩ := (readLevels_eq_ok_iff _ _ _ _).mp (h.readLevels_write code)
  simp only [contained, hheader, Header.levelCount, Header.levelStart, hcount]
  exact hlevels ▸ rfl

end Texture.Sound

/-- **What is written for a sound texture is read as it.** -/
theorem read_write {texture : Texture} {code : Nat}
    (hcode : CompressedFormat.ofCode? code = some texture.format) (h : texture.Sound) :
    read (write code texture.width texture.height texture.levels) = .ok texture := by
  rw [read_of_container (h.container_write hcode), h.contained_write (code_lt hcode)]

/-- A level in a container is as long as its word says, and has a place there. -/
theorem Container.holdsLevel {order : ByteOrder} {format : CompressedFormat} {bytes : List UInt8}
    (h : Container order format bytes) {level : Nat} {data : List UInt8}
    (hdata : (contained order format bytes).levels[level]? = some data) :
    ∃ offset, data.length = order.word bytes offset ∧
      HoldsLevel order format (Header.ofBytes order bytes).width
        (Header.ofBytes order bytes).height bytes level offset := by
  have hlt := (List.getElem?_eq_some_iff.mp hdata).1
  rw [contained, List.length_map, List.length_range] at hlt
  rw [contained, List.getElem?_map, List.getElem?_range hlt] at hdata
  have hholds := h.levels level hlt
  rw [← Option.some.inj hdata]
  exact ⟨_, length_levelData hholds, hholds⟩

/-- **The texture in a container is sound.** -/
theorem Container.sound {order : ByteOrder} {format : CompressedFormat} {bytes : List UInt8}
    (h : Container order format bytes) : (contained order format bytes).Sound where
  width_pos := Nat.pos_of_ne_zero h.header.width
  width_lt := ByteOrder.word_lt ..
  height_pos := Nat.pos_of_ne_zero h.header.height
  height_lt := ByteOrder.word_lt ..
  levels_ne := by
    refine List.ne_nil_of_length_pos ?_
    rw [contained, List.length_map, List.length_range]
    exact Nat.le_max_right ..
  count := by
    rw [contained, List.length_map, List.length_range]
    exact h.header.levelCount
  short := by
    intro data hdata
    obtain ⟨level, hlevel⟩ := List.getElem?_of_mem hdata
    obtain ⟨offset, hlength, -⟩ := h.holdsLevel hlevel
    rw [hlength]
    exact ByteOrder.word_lt ..
  sized := by
    intro level data hdata expected hexpected
    obtain ⟨offset, hlength, hholds⟩ := h.holdsLevel hdata
    rw [hlength]
    exact hholds.size expected hexpected

/-- **Reading undoes writing**, and writing what was read gives it back, from a container of either
byte order with whatever keys. -/
theorem read_write_texture :
    (∀ code texture, CompressedFormat.ofCode? code = some texture.format → texture.Sound →
        read (write code texture.width texture.height texture.levels) = .ok texture) ∧
      ∀ bytes texture, read bytes = .ok texture →
        (∃ code, CompressedFormat.ofCode? code = some texture.format) ∧
          ∀ code, CompressedFormat.ofCode? code = some texture.format →
            read (write code texture.width texture.height texture.levels) = .ok texture := by
  refine ⟨fun _ _ => read_write, fun bytes texture h => ?_⟩
  obtain ⟨order, format, hcontainer, rfl⟩ := container_of_read h
  exact ⟨⟨_, hcontainer.header.formatCode⟩, fun _ hcode => read_write hcode hcontainer.sound⟩

namespace Example

/-- A texture whose levels are not of whole words, the last one empty. -/
def uneven : Texture := ⟨.pvrtc2Rgb, 5, 3, [List.replicate 7 9, [1, 2, 3], []]⟩

theorem uneven_sound : uneven.Sound where
  width_pos := by decide
  width_lt := by decide
  height_pos := by decide
  height_lt := by decide
  levels_ne := by decide
  count := by decide
  short := by decide
  sized := fun _ _ _ _ h => by cases h

/-- The uneven texture under its code, and the texture of a container with the most significant byte
first under the code it had there. -/
theorem uneven_read_write :
    read (write 0x8C01 5 3 uneven.levels) = .ok uneven ∧
      read mostFirst = .ok (contained .mostFirst .etc1Rgb mostFirst) ∧
      read (write 0x8D64 6 1 [List.replicate 16 1, List.replicate 8 2]) =
        .ok (contained .mostFirst .etc1Rgb mostFirst) := by
  have hread := read_of_container container_mostFirst
  obtain ⟨hwrite, hagain⟩ := read_write_texture
  exact ⟨hwrite 0x8C01 uneven rfl uneven_sound, hread, (hagain _ _ hread).2 0x8D64 rfl⟩

end Example

end Ktx

end ShaderFabric
