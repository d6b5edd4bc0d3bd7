/-
# What the reader of containers counts fits a word

The places in a container and the sizes of its levels are counted in words of sixty-four bits.  A
place is never far past the bytes: each level is known to lie within them before the next place is
counted from its end.  The size of a level follows from its edges alone, so it is the header that
makes it large: at most `2 ^ 30` blocks cover an edge, and with blocks of sixteen bytes the largest
level takes `2 ^ 64` bytes, one more than a word can count.  There the reader breaks down.

* `counted` -- the reader once more, which holds every number it counts in a word;
* `levelSize?_eq` -- the size of a level is exact, and counted but for the largest one;
* `Counts` -- what ties a counting step to a step of the reader, kept by every step;
* `numbers_fit` -- all numbers fit a word but that one, the reader breaks down exactly if one does
  not, and the data of every level that it reads has the exact size.
-/
import Mathlib.Algebra.Order.Floor.Div
import Mathlib.GroupTheory.GroupAction.Ring
import ShaderFabric.Proofs.Texture.RoundTrip

namespace ShaderFabric

/-! ## 1. The size of a level -/

namespace CompressedFormat

/-- The bytes of all blocks that cover a level, if the format has blocks. -/
def coverBytes? (format : CompressedFormat) (width height : Nat) : Option Nat :=
  format.blockBytes?.map fun block => (max width 1 ⌈/⌉ 4) * (max height 1 ⌈/⌉ 4) * block

/-- A level whose blocks take as many bytes as there are words of sixty-four bits: `2 ^ 30` blocks
along each edge, of sixteen bytes each. -/
def Vast (format : CompressedFormat) (width height : Nat) : Prop :=
  format.blockBytes? = some 16 ∧ 0xFFFFFFFD ≤ width ∧ 0xFFFFFFFD ≤ height

instance (format : CompressedFormat) (width height : Nat) :
    Decidable (format.Vast width height) :=
  inferInstanceAs (Decidable (_ ∧ _ ∧ _))

theorem blocksAlong_eq_ceilDiv (edge : Nat) : blocksAlong edge = max edge 1 ⌈/⌉ 4 := by
  rw [Nat.ceilDiv_eq_add_pred_div]
  rfl

/-- The size of a level is that of the blocks that cover it. -/
theorem levelBytes?_eq (format : CompressedFormat) (width height : Nat) :
    format.levelBytes? width height = format.coverBytes? width height := by
  simp only [levelBytes?, coverBytes?, blocksAlong_eq_ceilDiv]

/-- A block has eight bytes or sixteen. -/
theorem blockBytes?_eq_some {format : CompressedFormat} {block : Nat}
    (h : format.blockBytes? = some block) : block = 8 ∨ block = 16 := by
  cases format <;> cases h <;> simp

theorem blocksAlong_le {edge : Nat} (h : edge < 0x100000000) : blocksAlong edge ≤ 0x40000000 := by
  simp only [blocksAlong]
  omega

/-- Only the three longest edges of a word take all `2 ^ 30` blocks. -/
theorem blocksAlong_lt {edge : Nat} (h : edge < 0xFFFFFFFD) : blocksAlong edge < 0x40000000 := by
  simp only [blocksAlong]
  omega

theorem blocksAlong_of_le {edge : Nat} (hedge : edge < 0x100000000) (h : 0xFFFFFFFD ≤ edge) :
    blocksAlong edge = 0x40000000 := by
  simp only [blocksAlong]
  omega

section Sizes

variable {format : CompressedFormat} {width height block : Nat}

/-- The blocks of a level with edges of a word. -/
theorem blocks_le (hwidth : width < 0x100000000) (hheight : height < 0x100000000) :
    blocksAlong width * blocksAlong height ≤ 0x40000000 * 0x40000000 :=
  Nat.mul_le_mul (blocksAlong_le hwidth) (blocksAlong_le hheight)

/-- The blocks of a vast level take one byte more than a word can count. -/
theorem Vast.bytes_eq (hwidth : width < 0x100000000) (hheight : height < 0x100000000)
    (h : format.Vast width height) (hblock : format.blockBytes? = some block) :
    blocksAlong width * blocksAlong height * block = 0x10000000000000000 := by
  obtain ⟨hsixteen, hw, hh⟩ := h
  obtain rfl : block = 16 := Option.some.inj (hblock.symm.trans hsixteen)
  rw [blocksAlong_of_le hwidth hw, blocksAlong_of_le hheight hh]

/-- The blocks of any other level take fewer bytes than there are words. -/
theorem bytes_lt (hwidth : width < 0x100000000) (hheight : height < 0x100000000)
    (h : ¬ format.Vast width height) (hblock : format.blockBytes? = some block) :
    blocksAlong width * blocksAlong height * block < 0x10000000000000000 := by
  have hall := blocks_le hwidth hheight
  obtain rfl | rfl := blockBytes?_eq_some hblock
  · omega
  · have hshort : width < 0xFFFFFFFD ∨ height < 0xFFFFFFFD := by
      by_contra hlong
      exact h ⟨hblock, by omega, by omega⟩
    -- one edge lacks a block at least
    have hblocks : blocksAlong width * blocksAlong height < 0x40000000 * 0x40000000 := by
      obtain hshort | hshort := hshort
      · exact Nat.mul_lt_mul_of_lt_of_le (blocksAlong_lt hshort) (blocksAlong_le hheight)
          (by decide)
      · exact Nat.mul_lt_mul_of_le_of_lt (blocksAlong_le hwidth) (blocksAlong_lt hshort)
          (by decide)
    omega

end Sizes

end CompressedFormat

namespace Ktx

open CompressedFormat (blocksAlong)

/-- **The size of a level**, for edges of a word: that of all of its blocks, unless it is vast. -/
theorem levelSize?_eq {format : CompressedFormat} {width height : Nat}
    (hwidth : width < 0x100000000) (hheight : height < 0x100000000) :
    levelSize? format width height =
      if format.Vast width height then .error .breakdown
      else .ok (format.coverBytes? width height) := by
  rw [← CompressedFormat.levelBytes?_eq, levelSize?, CompressedFormat.levelBytes?]
  by_cases h : format.Vast width height
  · have hbytes := h.bytes_eq hwidth hheight h.1
    simp only [if_pos h, h.1, Option.map_some, hbytes]
    rfl
  · rw [if_neg h]
    cases hblock : format.blockBytes? with
    | none => rfl
    | some block =>
      have hbytes := CompressedFormat.bytes_lt hwidth hheight h hblock
      simp only [Option.map_some, if_neg (Nat.not_le.mpr hbytes)]
      rfl

/-! ## 2. Results with the numbers on the way to them -/

/-- What a number counts. -/
inductive Quantity
  | levelStart
  | levelLimit
  | room
  | dataStart (level : Nat)
  | dataEnd (level : Nat)
  | blocks (level : Nat)
  | levelBytes (level : Nat)
  | padding (level : Nat)
  deriving Repr, DecidableEq

/-- A result, and the numbers that were counted on the way to it. -/
structure Counted (α : Type) where
  numbers : List (Quantity × Nat)
  result : Except Fault α

namespace Counted

variable {α β : Type}

/-- A fault that took no counting. -/
def fail (fault : Fault) : Counted α := ⟨[], .error fault⟩

/-- A number that a word has to hold; where it does not, all breaks down. -/
def hold (quantity : Quantity) (n : Nat) : Counted Unit :=
  ⟨[(quantity, n)], if n < 0x10000000000000000 then .ok () else .error .breakdown⟩

instance : Monad Counted where
  pure a := ⟨[], .ok a⟩
  bind x f := match x.result with
    | .error fault => ⟨x.numbers, .error fault⟩
    | .ok a => ⟨x.numbers ++ (f a).numbers, (f a).result⟩

end Counted

/-! ## 3. The reader, counting -/

open Counted (hold fail)

/-- The check of a header. -/
def countedCheck (header : Header) (size : Nat) : Counted CompressedFormat := do
  if header.texelType ≠ 0 then fail .uncompressed
  if 1 < header.depth ∨ 0 < header.elements ∨ header.faces ≠ 1 then
    fail (.notFlat header.depth header.elements header.faces)
  if header.width = 0 ∨ header.height = 0 then fail .noTexels
  let some format := CompressedFormat.ofCode? header.formatCode
    | fail (.unknownFormat header.formatCode)
  hold .levelStart header.levelStart
  hold .levelLimit header.levelLimit
  if header.levelLimit < header.levelCount then
    fail (.tooManyLevels header.levelCount header.levelLimit header.width header.height)
  let room := size - header.levelStart
  hold .room room
  if room / 4 < header.levelCount then fail (.noRoomForLevels header.levelCount room)
  return format

/-- The size of a level, if it follows from its edges. -/
def countedSize (format : CompressedFormat) (width height level : Nat) : Counted (Option Nat) := do
  let some block := format.blockBytes? | return none
  let blocks := blocksAlong width * blocksAlong height
  hold (.blocks level) blocks
  hold (.levelBytes level) (blocks * block)
  return some (blocks * block)

/-- The data of one level. -/
def countedLevel (order : ByteOrder) (format : CompressedFormat) (width height : Nat)
    (bytes : List UInt8) (level offset : Nat) : Counted (List UInt8) := do
  hold (.dataStart level) (offset + 4)
  let some size := order.word? bytes offset | fail (.noLevelSize level)
  hold (.dataEnd level) (offset + 4 + size)
  if bytes.length < offset + 4 + size then fail (.noLevelData level)
  if let some expected ← countedSize format (levelEdge width level) (levelEdge height level) level
  then
    if expected ≠ size then fail (.wrongLevelSize level size expected)
  return (bytes.drop (offset + 4)).take size

/-- The data of `count` levels from `level` on. -/
def countedLevels (order : ByteOrder) (format : CompressedFormat) (width height : Nat)
    (bytes : List UInt8) : Nat → Nat → Nat → Counted (List (List UInt8))
  | 0, _, _ => return []
  | count + 1, level, offset => do
    let data ← countedLevel order format width height bytes level offset
    hold (.padding level) (offset + 4 + data.length + 3)
    let rest ← countedLevels order format width height bytes count (level + 1)
      (padded (offset + 4 + data.length))
    return data :: rest

/-- **The reader, counting**: the texture of a container, and every number that a word has to hold
on the way to it. -/
def counted (bytes : List UInt8) : Counted Texture := do
  unless isContainer bytes do fail .noIdentifier
  if bytes.length < headerSize then fail (.shortHeader bytes.length)
  let some order := byteOrder? bytes | fail .noByteOrder
  let header := Header.ofBytes order bytes
  let format ← countedCheck header bytes.length
  let levels ← countedLevels order format header.width header.height bytes header.levelCount 0
    header.levelStart
  return ⟨format, header.width, header.height, levels⟩

/-! ## 4. Counting beside reading -/

/-- **Counting comes to what reading comes to**; every number fits a word or is as `P` asks, and a
number that does not fit is what breaks the reader down. -/
structure Counts {α : Type} (P : Quantity → Nat → Prop) (counting : Counted α)
    (reading : Except Fault α) : Prop where
  result : counting.result = reading
  numbers : ∀ quantity n, (quantity, n) ∈ counting.numbers →
    n < 0x10000000000000000 ∨ P quantity n
  breakdown : reading = .error .breakdown ↔
    ∃ quantity n, (quantity, n) ∈ counting.numbers ∧ 0x10000000000000000 ≤ n

namespace Counts

variable {α β : Type} {P : Quantity → Nat → Prop}

theorem pure (a : α) : Counts P (pure a : Counted α) (pure a) where
  result := rfl
  numbers _ _ h := by cases h
  breakdown := iff_of_false (by rintro ⟨⟩) (by rintro ⟨_, _, ⟨⟩, _⟩)

theorem fail {fault : Fault} (h : fault ≠ .breakdown) :
    Counts P (Counted.fail fault : Counted α) (throw fault) where
  result := rfl
  numbers _ _ h := by cases h
  breakdown := iff_of_false (fun hfault => h (Except.error.inj hfault)) (by rintro ⟨_, _, ⟨⟩, _⟩)

/-- Steps in a row.  If the first one ends well all of its numbers fit, so that a number that does
not is one of the second. -/
theorem bind {x : Counted α} {f : α → Counted β} {y : Except Fault α} {g : α → Except Fault β}
    (first : Counts P x y) (second : ∀ a, y = .ok a → Counts P (f a) (g a)) :
    Counts P (x >>= f) (y >>= g) := by
  obtain ⟨numbers, result⟩ := x
  obtain rfl : result = y := first.result
  cases result with
  | error fault =>
    have hbreakdown := first.breakdown
    rw [Except.error.injEq] at hbreakdown
    exact ⟨rfl, first.numbers, (Except.error.injEq ..).to_iff.trans hbreakdown⟩
  | ok a =>
    have hsecond := second a rfl
    refine ⟨hsecond.result, ?_, ?_⟩
    · intro quantity n hmem
      obtain hmem | hmem := List.mem_append.mp hmem
      · exact first.numbers quantity n hmem
      · exact hsecond.numbers quantity n hmem
    · refine hsecond.breakdown.trans <| exists₂_congr fun quantity n =>
        and_congr_left fun hlarge => ?_
      refine ⟨List.mem_append_right numbers, fun hmem => ?_⟩
      obtain hmem | hmem := List.mem_append.mp hmem
      · exact nomatch first.breakdown.mpr ⟨quantity, n, hmem, hlarge⟩
      · exact hmem

/-- A number that fits does not show in the result. -/
theorem hold {quantity : Quantity} {n : Nat} {f : Unit → Counted β} {y : Except Fault β}
    (hn : n < 0x10000000000000000) (rest : Counts P (f ()) y) :
    Counts P (Counted.hold quantity n >>= f) y := by
  have hheld : Counts P (Counted.hold quantity n) (Pure.pure ()) := by
    refine ⟨if_pos hn, ?_, ?_⟩
    · intro _ _ hmem
      cases List.mem_singleton.mp hmem
      exact .inl hn
    · refine iff_of_false (fun h => nomatch h) ?_
      rintro ⟨_, _, hmem, hlarge⟩
      cases List.mem_singleton.mp hmem
      omega
  exact hheld.bind fun _ _ => rest

/-- A number that does not fit ends all. -/
theorem hold_breakdown {quantity : Quantity} {n : Nat} {f : Unit → Counted β}
    (hn : 0x10000000000000000 ≤ n) (h : P quantity n) :
    Counts P (Counted.hold quantity n >>= f) (.error .breakdown) := by
  have hheld : Counts P (Counted.hold quantity n) (.error .breakdown) := by
    refine ⟨if_neg (Nat.not_lt.mpr hn), ?_, iff_of_true rfl ⟨quantity, n, ?_, hn⟩⟩
    · intro _ _ hmem
      cases List.mem_singleton.mp hmem
      exact .inr h
    · exact List.mem_singleton.mpr rfl
  exact hheld.bind (g := fun _ => .error .breakdown) fun _ h => nomatch h

/-- A step that refuses a condition. -/
theorem refuse {c : Prop} [Decidable c] {fault : Fault} {f : Unit → Counted β}
    {g : Unit → Except Fault β} {x : Counted β} {y : Except Fault β} (hfault : fault ≠ .breakdown)
    (h : ¬ c → Counts P x y) :
    Counts P (if c then Counted.fail fault >>= f else x) (if c then throw fault >>= g else y) := by
  by_cases hc : c
  · rw [if_pos hc, if_pos hc]
    exact (fail hfault).bind fun _ h => nomatch h
  · rw [if_neg hc, if_neg hc]
    exact h hc

/-- A step that requires a condition. -/
theorem require {c : Prop} [Decidable c] {fault : Fault} {f : Unit → Counted β}
    {g : Unit → Except Fault β} {x : Counted β} {y : Except Fault β} (hfault : fault ≠ .breakdown)
    (h : c → Counts P x y) :
    Counts P (if c then x else Counted.fail fault >>= f) (if c then y else throw fault >>= g) := by
  by_cases hc : c
  · rw [if_pos hc, if_pos hc]
    exact h hc
  · rw [if_neg hc, if_neg hc]
    exact (fail hfault).bind fun _ h => nomatch h

theorem mono {Q : Quantity → Nat → Prop} {x : Counted α} {y : Except Fault α} (h : Counts P x y)
    (hPQ : ∀ quantity n, P quantity n → Q quantity n) : Counts Q x y :=
  ⟨h.result, fun quantity n hmem => (h.numbers quantity n hmem).imp_right (hPQ quantity n),
    h.breakdown⟩

end Counts

/-! ## 5. The numbers -/

/-- The number that no word holds: the size of the first level of a vast texture, if there is
one. -/
def Past (vast : Prop) (quantity : Quantity) (n : Nat) : Prop :=
  vast ∧ quantity = .levelBytes 0 ∧ n = 0x10000000000000000

/-- The header of the bytes tells of a texture whose first level is vast. -/
def TellsVast (bytes : List UInt8) : Prop :=
  ∃ order format, byteOrder? bytes = some order ∧
    CompressedFormat.ofCode? (Header.ofBytes order bytes).formatCode = some format ∧
    format.Vast (Header.ofBytes order bytes).width (Header.ofBytes order bytes).height

theorem levelEdge_lt {edge : Nat} (h : edge < 0x100000000) (level : Nat) :
    levelEdge edge level < 0x100000000 := by
  have hhalved : edge >>> level ≤ edge := Nat.shiftRight_le edge level
  simp only [levelEdge]
  omega

/-- Only the first level of a texture can be vast: the edges of the next one are half as long. -/
theorem vast_levelEdge {format : CompressedFormat} {width height level : Nat}
    (hwidth : width < 0x100000000) :
    format.Vast (levelEdge width level) (levelEdge height level) ↔
      level = 0 ∧ format.Vast width height := by
  cases level with
  | zero =>
    have hone : ∀ edge, 0xFFFFFFFD ≤ max edge 1 ↔ 0xFFFFFFFD ≤ edge := by omega
    simp only [CompressedFormat.Vast, levelEdge, Nat.shiftRight_zero, hone, true_and]
  | succ level =>
    have hhalf : width >>> (level + 1) ≤ width / 2 := by
      rw [Nat.shiftRight_succ]
      exact Nat.div_le_div_right (Nat.shiftRight_le width level)
    simp only [CompressedFormat.Vast, levelEdge]
    omega

theorem levelLimit_le {header : Header} (hwidth : header.width < 0x100000000)
    (hheight : header.height < 0x100000000) (h : header.width ≠ 0) : header.levelLimit ≤ 32 := by
  rw [levelLimit_eq_size h, Nat.size_le]
  exact Nat.max_lt.mpr ⟨hwidth, hheight⟩

theorem counts_check {P : Quantity → Nat → Prop} {header : Header} {size : Nat}
    (hkeys : header.keyBytes < 0x100000000) (hwidth : header.width < 0x100000000)
    (hheight : header.height < 0x100000000) (hsize : size < 0x8000000000000000) :
    Counts P (countedCheck header size) (header.check size) := by
  have hstart : header.levelStart < 0x10000000000000000 := by
    simp only [Header.levelStart, headerSize]
    omega
  unfold countedCheck Header.check
  refine .refuse (by simp) fun _ => .refuse (by simp) fun _ => .refuse (by simp) fun hedges => ?_
  cases CompressedFormat.ofCode? header.formatCode with
  | none => exact .fail (by simp)
  | some format =>
    have hlimit := levelLimit_le hwidth hheight fun h => hedges (.inl h)
    refine .hold hstart (.hold ?_ (.refuse (by simp) fun _ => .hold ?_
      (.refuse (by simp) fun _ => .pure _)))
    · omega
    · omega

section Levels

variable {order : ByteOrder} {format : CompressedFormat} {width height : Nat} {bytes : List UInt8}

/-- The size of a level, which only the first level of a vast texture takes too far. -/
theorem counts_size (hwidth : width < 0x100000000) (hheight : height < 0x100000000) (level : Nat) :
    Counts (Past (format.Vast width height))
      (countedSize format (levelEdge width level) (levelEdge height level) level)
      (levelSize? format (levelEdge width level) (levelEdge height level)) := by
  have hw := levelEdge_lt hwidth level
  have hh := levelEdge_lt hheight level
  have hblocks := CompressedFormat.blocks_le hw hh
  rw [levelSize?_eq hw hh, ← CompressedFormat.levelBytes?_eq, CompressedFormat.levelBytes?]
  unfold countedSize
  cases hblock : format.blockBytes? with
  | none =>
    have hnot : ¬ format.Vast (levelEdge width level) (levelEdge height level) := fun h =>
      Option.some_ne_none _ (h.1.symm.trans hblock)
    rw [if_neg hnot]
    exact .pure _
  | some block =>
    refine .hold (by omega) ?_
    by_cases h : format.Vast (levelEdge width level) (levelEdge height level)
    · obtain ⟨hfirst, hvast⟩ := (vast_levelEdge hwidth).mp h
      have hbytes := h.bytes_eq hw hh hblock
      rw [if_pos h]
      exact .hold_breakdown (Nat.le_of_eq hbytes.symm) ⟨hvast, by rw [hfirst], hbytes⟩
    · rw [if_neg h]
      exact .hold (CompressedFormat.bytes_lt hw hh h hblock) (.pure _)

/-- The numbers of a level that starts at most a padding past the bytes. -/
theorem counts_level (hbytes : bytes.length < 0x8000000000000000)
    (hwidth : width < 0x100000000) (hheight : height < 0x100000000) {level offset : Nat}
    (hoffset : offset ≤ bytes.length + 3) :
    Counts (Past (format.Vast width height))
      (countedLevel order format width height bytes level offset)
      (readLevel order format width height bytes level offset) := by
  have hword := order.word_lt bytes offset
  unfold countedLevel readLevel
  refine .hold (by omega) ?_
  unfold ByteOrder.word?
  by_cases hsize : offset + 4 ≤ bytes.length
  · simp only [if_pos hsize]
    refine .hold (by omega) (.refuse (by simp) fun _ => ?_)
    refine (counts_size hwidth hheight level).bind fun size _ => ?_
    cases size with
    | none => exact .pure _
    | some expected => exact .refuse (by simp) fun _ => .pure _
  · simp only [if_neg hsize]
    exact .fail (by simp)

/-- **The numbers of levels in a row.**  The invariant is that a level starts at most a padding past
the bytes; the data of a level that has been read ends within them. -/
theorem counts_levels (hbytes : bytes.length < 0x8000000000000000)
    (hwidth : width < 0x100000000) (hheight : height < 0x100000000) :
    ∀ count level offset, offset ≤ bytes.length + 3 →
      Counts (Past (format.Vast width height))
        (countedLevels order format width height bytes count level offset)
        (readLevels order format width height bytes count level offset)
  | 0, _, _, _ => .pure _
  | count + 1, level, offset, hoffset => by
    unfold countedLevels readLevels
    refine (counts_level hbytes hwidth hheight hoffset).bind fun data hdata => ?_
    obtain ⟨hlevel, rfl⟩ := readLevel_eq_ok_iff.mp hdata
    have hend : offset + 4 + (levelData order bytes offset).length ≤ bytes.length := by
      rw [length_levelData hlevel]
      exact hlevel.dataRoom
    refine .hold (by omega) (.bind ?_ fun _ _ => .pure _)
    refine counts_levels hbytes hwidth hheight count (level + 1) _ ?_
    simp only [padded]
    omega

end Levels

/-- **All numbers of the reader.**  Once the header has been checked, the first level starts within
the bytes. -/
theorem counts_read {bytes : List UInt8} (hbytes : bytes.length < 0x8000000000000000) :
    Counts (Past (TellsVast bytes)) (counted bytes) (read bytes) := by
  unfold counted read
  refine .require (by simp) fun _ => .refuse (by simp) fun _ => ?_
  cases horder : byteOrder? bytes with
  | none => exact .fail (by simp)
  | some order =>
    have hwidth : (Header.ofBytes order bytes).width < 0x100000000 := order.word_lt bytes 36
    have hheight : (Header.ofBytes order bytes).height < 0x100000000 := order.word_lt bytes 40
    have hkeys : (Header.ofBytes order bytes).keyBytes < 0x100000000 := order.word_lt bytes 60
    refine .bind (counts_check hkeys hwidth hheight hbytes) fun format hformat => ?_
    obtain ⟨hflat, hroom⟩ := check_eq_ok_iff.mp hformat
    have hstart : (Header.ofBytes order bytes).levelStart ≤ bytes.length + 3 := by
      have hcount : 1 ≤ (Header.ofBytes order bytes).levelCount := Nat.le_max_right ..
      omega
    refine .bind ((counts_levels hbytes hwidth hheight _ 0 _ hstart).mono
      fun _ _ hpast => ?_) fun _ _ => .pure _
    exact ⟨⟨order, format, horder, hflat.formatCode, hpast.1⟩, hpast.2⟩

/-! ## 6. The size of what has been read -/

/-- The data of a level that has been read has all bytes of the blocks that cover it. -/
theorem length_level_of_read {bytes : List UInt8} {texture : Texture}
    (h : read bytes = .ok texture) {level : Nat} {data : List UInt8}
    (hdata : texture.levels[level]? = some data) {cover : Nat}
    (hcover : texture.format.coverBytes? (levelEdge texture.width level)
      (levelEdge texture.height level) = some cover) : data.length = cover := by
  obtain ⟨order, format, hcontainer, rfl⟩ := container_of_read h
  exact hcontainer.sound.sized level data hdata cover
    ((CompressedFormat.levelBytes?_eq ..).trans hcover)

/-- **What the reader counts fits a word of sixty-four bits**, but for the size of the largest level
that a header can tell of.  For fewer than `2 ^ 63` bytes every number that is counted on the way to
what is read is below `2 ^ 64`, or is the size of the first level of a vast texture; the reader
breaks down exactly if there is such a number; the size of a level is that of the blocks that cover
it, unless it is vast; and so is the length of the data of every level that has been read, so that
no level is read without all of its blocks. -/
theorem numbers_fit {bytes : List UInt8} (hbytes : bytes.length < 0x8000000000000000) :
    (counted bytes).result = read bytes ∧
      (∀ quantity n, (quantity, n) ∈ (counted bytes).numbers →
        n < 0x10000000000000000 ∨
          TellsVast bytes ∧ quantity = .levelBytes 0 ∧ n = 0x10000000000000000) ∧
      (read bytes = .error .breakdown ↔
        ∃ quantity n, (quantity, n) ∈ (counted bytes).numbers ∧ 0x10000000000000000 ≤ n) ∧
      (∀ (format : CompressedFormat) width height, width < 0x100000000 → height < 0x100000000 →
        levelSize? format width height =
          if format.Vast width height then .error .breakdown
          else .ok (format.coverBytes? width height)) ∧
      ∀ texture, read bytes = .ok texture → ∀ level data, texture.levels[level]? = some data →
        ∀ cover, texture.format.coverBytes? (levelEdge texture.width level)
            (levelEdge texture.height level) = some cover → data.length = cover := by
  obtain ⟨hresult, hnumbers, hbreakdown⟩ := counts_read hbytes
  exact ⟨hresult, hnumbers, hbreakdown, fun _ _ _ hwidth hheight => levelSize?_eq hwidth hheight,
    fun _ hread _ _ hdata _ hcover => length_level_of_read hread hdata hcover⟩

namespace Example

theorem mostFirst_numbers_fit :
    mostFirst.length < 0x8000000000000000 ∧
      (∀ quantity n, (quantity, n) ∈ (counted mostFirst).numbers → n < 0x10000000000000000) ∧
      read mostFirst ≠ .error .breakdown := by
  have hshort : mostFirst.length < 0x8000000000000000 := by decide
  obtain ⟨-, hnumbers, hbreakdown, -⟩ := numbers_fit hshort
  have hfit : ∀ quantity n, (quantity, n) ∈ (counted mostFirst).numbers →
      n < 0x10000000000000000 := by
    intro quantity n hmem
    obtain hfits | ⟨⟨order, format, horder, -, -, hwide, -⟩, -, -⟩ := hnumbers quantity n hmem
    · exact hfits
    · obtain rfl := Option.some.inj (horder.symm.trans (by decide : _ = some ByteOrder.mostFirst))
      exact absurd hwide (by decide)
  refine ⟨hshort, hfit, fun h => ?_⟩
  obtain ⟨quantity, n, hmem, hlarge⟩ := hbreakdown.mp h
  exact Nat.not_lt.mpr hlarge (hfit quantity n hmem)

/-- Sixty-eight bytes: a header of a texture with the longest edges, and a level of no bytes. -/
def vast : List UInt8 := write 0x83F3 0xFFFFFFFF 0xFFFFFFFF [[]]

/-- The reader breaks down over the short container: the blocks of the largest level are `2 ^ 64`
bytes, a number that does not fit a word. -/
theorem vast_breaks_down :
    vast.length = 68 ∧ read vast = .error .breakdown ∧
      (Quantity.levelBytes 0, 0x10000000000000000) ∈ (counted vast).numbers ∧
      levelSize? .bc3Rgba 0xFFFFFFFF 0xFFFFFFFF = .error .breakdown ∧
      CompressedFormat.bc3Rgba.coverBytes? 0xFFFFFFFF 0xFFFFFFFF = some 0x10000000000000000 := by
  refine ⟨rfl, by decide +kernel, by decide +kernel, rfl, ?_⟩
  rw [← CompressedFormat.levelBytes?_eq]
  decide

end Example

end Ktx

end ShaderFabric
