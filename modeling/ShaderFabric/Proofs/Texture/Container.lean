/-
# Which bytes are containers

A container is described here without a reader: its first bytes, what its header says in its byte
order, and where each level lies.  The next level starts at the first multiple of four after the
data of the level before it, so its place depends on the sizes of all levels before it.

* `Container` -- a sound container of a flat compressed texture;
* `check_eq_ok_iff`, `readLevels_eq_ok_iff` -- when the steps of the reader end well, and with what;
* `read_iff_container` -- the reader takes a container for the texture in it, and nothing else.
-/
import Mathlib.Data.Nat.Size
import ShaderFabric.Proofs.Checks
import ShaderFabric.Texture.Ktx

namespace ShaderFabric

namespace Ktx

/-! ## 1. Containers -/

/-- A header of a flat compressed texture with no more levels than halving its edges gives. -/
structure Header.Flat (header : Header) (format : CompressedFormat) : Prop where
  texelType : header.texelType = 0
  depth : header.depth ≤ 1
  elements : header.elements = 0
  faces : header.faces = 1
  width : header.width ≠ 0
  height : header.height ≠ 0
  formatCode : CompressedFormat.ofCode? header.formatCode = some format
  levelCount : header.levelCount ≤ (max header.width header.height).size

/-- The data of the level at an offset. -/
def levelData (order : ByteOrder) (bytes : List UInt8) (offset : Nat) : List UInt8 :=
  (bytes.drop (offset + 4)).take (order.word bytes offset)

/-- Where a level starts if the first one does at `start`: at the first multiple of four after the
data of the level before it. -/
def levelOffset (order : ByteOrder) (bytes : List UInt8) (start : Nat) : Nat → Nat
  | 0 => start
  | level + 1 =>
    let before := levelOffset order bytes start level
    padded (before + 4 + order.word bytes before)

/-- The bytes hold a level at an offset: the word of its size, and its data of that size, which is
the one that follows from its edges if any does. -/
structure HoldsLevel (order : ByteOrder) (format : CompressedFormat) (width height : Nat)
    (bytes : List UInt8) (level offset : Nat) : Prop where
  sizeRoom : offset + 4 ≤ bytes.length
  dataRoom : offset + 4 + order.word bytes offset ≤ bytes.length
  size : ∀ expected,
    format.levelBytes? (levelEdge width level) (levelEdge height level) = some expected →
      order.word bytes offset = expected

instance (order : ByteOrder) (format : CompressedFormat) (width height : Nat) (bytes : List UInt8)
    (level offset : Nat) : Decidable (HoldsLevel order format width height bytes level offset) :=
  decidable_of_iff (offset + 4 ≤ bytes.length ∧
      offset + 4 + order.word bytes offset ≤ bytes.length ∧
      ∀ expected ∈ format.levelBytes? (levelEdge width level) (levelEdge height level),
        order.word bytes offset = expected)
    ⟨fun ⟨sizeRoom, dataRoom, size⟩ => ⟨sizeRoom, dataRoom, size⟩,
      fun ⟨sizeRoom, dataRoom, size⟩ => ⟨sizeRoom, dataRoom, size⟩⟩

/-- **A container** of a flat compressed texture, in a byte order. -/
structure Container (order : ByteOrder) (format : CompressedFormat) (bytes : List UInt8) :
    Prop where
  start : identifier <+: bytes
  headerRoom : headerSize ≤ bytes.length
  mark : order.word bytes 12 = orderMark
  header : (Header.ofBytes order bytes).Flat format
  levels : ∀ level < (Header.ofBytes order bytes).levelCount,
    HoldsLevel order format (Header.ofBytes order bytes).width (Header.ofBytes order bytes).height
      bytes level (levelOffset order bytes (Header.ofBytes order bytes).levelStart level)

/-- The texture in a container. -/
def contained (order : ByteOrder) (format : CompressedFormat) (bytes : List UInt8) : Texture where
  format := format
  width := (Header.ofBytes order bytes).width
  height := (Header.ofBytes order bytes).height
  levels := (List.range (Header.ofBytes order bytes).levelCount).map fun level =>
    levelData order bytes (levelOffset order bytes (Header.ofBytes order bytes).levelStart level)

/-! ## 2. The header -/

/-- The bytes that read as the mark are known. -/
theorem eq_of_number_eq_orderMark {part : List UInt8} (hlength : part.length ≤ 4)
    (h : ByteOrder.number part = orderMark) : part = [1, 2, 3, 4] := by
  have hlong : 4 ≤ part.length := by
    refine Nat.le_of_not_lt fun hshort => ?_
    have hpow := Nat.pow_le_pow_right (by decide : 0 < 256) (Nat.le_of_lt_succ hshort)
    exact absurd (h ▸ Nat.lt_of_lt_of_le (ByteOrder.number_lt part) hpow) (by decide)
  match part, Nat.le_antisymm hlength hlong with
  | [a, b, c, d], _ =>
    have ha := a.toNat_lt
    have hb := b.toNat_lt
    have hc := c.toNat_lt
    simp only [ByteOrder.number, orderMark, List.foldr_cons, List.foldr_nil] at h
    simp only [List.cons.injEq, ← UInt8.toNat_inj, UInt8.reduceToNat, and_true]
    omega

/-- At most one byte order reads the mark as it should. -/
theorem byteOrder?_eq_some_iff {bytes : List UInt8} {order : ByteOrder} :
    byteOrder? bytes = some order ↔ order.word bytes 12 = orderMark := by
  unfold byteOrder?
  by_cases hleast : ByteOrder.leastFirst.word bytes 12 = orderMark
  · have hpart := eq_of_number_eq_orderMark (List.length_take_le 4 _) hleast
    have hmost : ByteOrder.mostFirst.word bytes 12 ≠ orderMark := by
      rw [ByteOrder.word, ByteOrder.read, hpart]
      decide
    cases order <;> simp [hleast, hmost]
  · cases order <;> simp [hleast]

/-- Halving an edge down to one texel takes as many levels as the edge has bits. -/
theorem levelLimit_eq_size {header : Header} (h : header.width ≠ 0) :
    header.levelLimit = (max header.width header.height).size := by
  have hedge : max header.width header.height ≠ 0 := by omega
  have hleast := Nat.lt_size.mpr (Nat.log2_self_le hedge)
  have hmost := Nat.size_le.mpr (@Nat.lt_log2_self (max header.width header.height))
  exact Nat.le_antisymm hleast hmost

theorem check_eq_ok_iff {header : Header} {size : Nat} {format : CompressedFormat} :
    header.check size = .ok format ↔
      header.Flat format ∧ header.levelCount ≤ (size - header.levelStart) / 4 := by
  unfold Header.check
  simp only [refuse_eq_ok]
  constructor
  · rintro ⟨htype, hflat, hedges, h⟩
    split at h
    · rename_i found hcode
      simp only [refuse_eq_ok, pure_eq_ok] at h
      obtain ⟨hlimit, hroom, rfl⟩ := h
      have hwidth : header.width ≠ 0 := by omega
      rw [levelLimit_eq_size hwidth] at hlimit
      refine ⟨⟨?_, ?_, ?_, ?_, hwidth, ?_, hcode, ?_⟩, ?_⟩ <;> omega
    · exact absurd h throw_ne_ok
  · rintro ⟨⟨htype, hdepth, helements, hfaces, hwidth, hheight, hcode, hcount⟩, hroom⟩
    rw [← levelLimit_eq_size hwidth] at hcount
    simp only [hcode, refuse_eq_ok, pure_eq_ok]
    refine ⟨?_, ?_, ?_, ?_, ?_, trivial⟩ <;> omega

/-! ## 3. The levels -/

section Levels

variable {order : ByteOrder} {format : CompressedFormat} {width height : Nat} {bytes : List UInt8}

/-- **The size of a level is counted** exactly if a word of sixty-four bits holds it, and then it is
the one that follows from the edges. -/
theorem levelSize?_eq_ok_iff {format : CompressedFormat} {width height : Nat}
    {size : Option Nat} : levelSize? format width height = .ok size ↔
      (∀ expected, format.levelBytes? width height = some expected →
        expected < 0x10000000000000000) ∧
      size = format.levelBytes? width height := by
  unfold levelSize?
  cases format.levelBytes? width height with
  | none => simpa [pure_eq_ok] using eq_comm
  | some expected =>
    simp only [refuse_eq_ok, pure_eq_ok, Nat.not_le, Option.some.injEq, forall_eq']
    exact and_congr_right fun _ => eq_comm

theorem readLevel_eq_ok_iff {level offset : Nat} {data : List UInt8} :
    readLevel order format width height bytes level offset = .ok data ↔
      HoldsLevel order format width height bytes level offset ∧
        data = levelData order bytes offset := by
  unfold readLevel ByteOrder.word?
  by_cases hsize : offset + 4 ≤ bytes.length
  · simp only [if_pos hsize, refuse_eq_ok, bind_eq_ok, levelSize?_eq_ok_iff]
    constructor
    · rintro ⟨hdata, _, ⟨-, rfl⟩, h⟩
      cases hexpected : format.levelBytes? (levelEdge width level) (levelEdge height level) with
      | none =>
        simp only [hexpected, pure_eq_ok] at h
        exact ⟨⟨hsize, by omega, by simp [hexpected]⟩, h.symm⟩
      | some expected =>
        simp only [hexpected, refuse_eq_ok, pure_eq_ok] at h
        exact ⟨⟨hsize, by omega, by simp [hexpected]; omega⟩, h.2.symm⟩
    · rintro ⟨hlevel, rfl⟩
      -- the size is that of a word of four bytes, which a word of eight can count
      have hcount : ∀ expected,
          format.levelBytes? (levelEdge width level) (levelEdge height level) = some expected →
            expected < 0x10000000000000000 := fun expected hexpected =>
        hlevel.size expected hexpected ▸ Nat.lt_trans (order.word_lt bytes offset) (by decide)
      refine ⟨Nat.not_lt.mpr hlevel.dataRoom, _, ⟨hcount, rfl⟩, ?_⟩
      split
      · rename_i expected hexpected
        simp [pure_eq_ok, hlevel.size expected hexpected, levelData]
      · rw [pure_eq_ok, levelData]
  · simp only [if_neg hsize]
    exact iff_of_false throw_ne_ok fun h => hsize h.1.sizeRoom

theorem length_levelData {level offset : Nat}
    (h : HoldsLevel order format width height bytes level offset) :
    (levelData order bytes offset).length = order.word bytes offset := by
  have := h.dataRoom
  simp only [levelData, List.length_take, List.length_drop]
  omega

@[simp] theorem levelOffset_zero (start : Nat) : levelOffset order bytes start 0 = start := rfl

/-- The places of the levels after the first. -/
theorem levelOffset_succ (start : Nat) : ∀ level,
    levelOffset order bytes start (level + 1) =
      levelOffset order bytes (padded (start + 4 + order.word bytes start)) level
  | 0 => rfl
  | level + 1 => by rw [levelOffset, levelOffset_succ start level]; rfl

/-- **The levels are read in a row**, each at the place that the ones before it leave. -/
theorem readLevels_eq_ok_iff : ∀ (count level offset : Nat) (levels : List (List UInt8)),
    readLevels order format width height bytes count level offset = .ok levels ↔
      (∀ i < count, HoldsLevel order format width height bytes (level + i)
        (levelOffset order bytes offset i)) ∧
      levels = (List.range count).map fun i =>
        levelData order bytes (levelOffset order bytes offset i)
  | 0, level, offset, levels => by
    rw [readLevels, pure_eq_ok]
    simp [eq_comm]
  | count + 1, level, offset, levels => by
    have later := readLevels_eq_ok_iff count (level + 1)
      (padded (offset + 4 + order.word bytes offset))
    have hplace : ∀ i, level + 1 + i = level + (i + 1) := by omega
    simp only [← levelOffset_succ, hplace] at later
    simp only [readLevels, bind_eq_ok, pure_eq_ok, readLevel_eq_ok_iff, Nat.forall_lt_succ_left,
      List.range_succ_eq_map, List.map_cons, List.map_map, levelOffset_zero, Nat.add_zero]
    constructor
    · rintro ⟨_, ⟨hfirst, rfl⟩, rest, hrest, rfl⟩
      rw [length_levelData hfirst] at hrest
      obtain ⟨hlater, rfl⟩ := (later rest).mp hrest
      exact ⟨⟨hfirst, hlater⟩, rfl⟩
    · rintro ⟨⟨hfirst, hlater⟩, rfl⟩
      refine ⟨_, ⟨hfirst, rfl⟩, _, ?_, rfl⟩
      rw [length_levelData hfirst]
      exact (later _).mpr ⟨hlater, rfl⟩

/-- Every level before it takes its size word at least. -/
theorem le_levelOffset (start : Nat) : ∀ level,
    start + 4 * level ≤ levelOffset order bytes start level
  | 0 => by simp [levelOffset]
  | level + 1 => by
    have := le_levelOffset start level
    simp only [levelOffset, padded]
    omega

/-- Bytes that hold levels have room for the words of their sizes. -/
theorem count_le_room {count start : Nat}
    (h : ∀ level < count, HoldsLevel order format width height bytes level
      (levelOffset order bytes start level)) :
    count ≤ (bytes.length - start) / 4 := by
  cases count with
  | zero => omega
  | succ last =>
    have hroom := (h last (Nat.lt_succ_self last)).sizeRoom
    have := @le_levelOffset order bytes start last
    omega

end Levels

/-! ## 4. The reader -/

/-- What is read is the texture in a container. -/
theorem container_of_read {bytes : List UInt8} {texture : Texture}
    (h : read bytes = .ok texture) :
    ∃ order format, Container order format bytes ∧ texture = contained order format bytes := by
  simp only [read, require_eq_ok, refuse_eq_ok] at h
  obtain ⟨hstart, hroom, h⟩ := h
  split at h
  · rename_i order horder
    simp only [bind_eq_ok, pure_eq_ok, check_eq_ok_iff, readLevels_eq_ok_iff, Nat.zero_add] at h
    obtain ⟨format, ⟨hheader, -⟩, _, ⟨hlevels, rfl⟩, rfl⟩ := h
    exact ⟨order, format, ⟨List.isPrefixOf_iff_prefix.mp hstart, Nat.not_lt.mp hroom,
      byteOrder?_eq_some_iff.mp horder, hheader, hlevels⟩, rfl⟩
  · exact absurd h throw_ne_ok

/-- The texture in a container is read. -/
theorem read_of_container {order : ByteOrder} {format : CompressedFormat} {bytes : List UInt8}
    (h : Container order format bytes) : read bytes = .ok (contained order format bytes) := by
  simp only [read, require_eq_ok, refuse_eq_ok]
  refine ⟨List.isPrefixOf_iff_prefix.mpr h.start, Nat.not_lt.mpr h.headerRoom, ?_⟩
  simp only [byteOrder?_eq_some_iff.mpr h.mark, bind_eq_ok, pure_eq_ok, check_eq_ok_iff,
    readLevels_eq_ok_iff, Nat.zero_add]
  exact ⟨format, ⟨h.header, count_le_room h.levels⟩, _, ⟨h.levels, rfl⟩, rfl⟩

/-- **The reader takes containers and nothing else.**  It ends well if and only if the bytes are a
container, and then with the texture in it. -/
theorem read_iff_container (bytes : List UInt8) :
    ((∃ texture, read bytes = .ok texture) ↔ ∃ order format, Container order format bytes) ∧
      ∀ order format, Container order format bytes →
        read bytes = .ok (contained order format bytes) := by
  refine ⟨⟨?_, ?_⟩, fun _ _ => read_of_container⟩
  · rintro ⟨texture, h⟩
    obtain ⟨order, format, hcontainer, -⟩ := container_of_read h
    exact ⟨order, format, hcontainer⟩
  · rintro ⟨order, format, h⟩
    exact ⟨_, read_of_container h⟩

namespace Example

/-- A container with the most significant byte first, five bytes of keys and two levels. -/
def mostFirst : List UInt8 :=
  let header := [orderMark, 0, 1, 0, 0x8D64, 0, 6, 1, 0, 0, 1, 2, 5]
  identifier ++ header.flatMap ByteOrder.wordBytesMostFirst ++ [7, 7, 7, 7, 7]
    ++ ByteOrder.wordBytesMostFirst 16 ++ List.replicate 16 1 ++ [0, 0, 0]
    ++ ByteOrder.wordBytesMostFirst 8 ++ List.replicate 8 2

theorem container_mostFirst : Container .mostFirst .etc1Rgb mostFirst where
  start := by decide
  headerRoom := by decide
  mark := by decide
  header := by constructor <;> decide
  levels := by decide

theorem read_mostFirst :
    Container .mostFirst .etc1Rgb mostFirst ∧
      read mostFirst = .ok ⟨.etc1Rgb, 6, 1, [List.replicate 16 1, List.replicate 8 2]⟩ := by
  refine ⟨container_mostFirst, ?_⟩
  refine ((read_iff_container mostFirst).2 _ _ container_mostFirst).trans (congrArg Except.ok ?_)
  decide +kernel

end Example

end Ktx

end ShaderFabric
