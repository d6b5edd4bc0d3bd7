/-
# The bytes of a text and its characters

A program that reads a text byte by byte meets a character of seven bits as itself, and any other
one as some bytes of eight bits each.  So a character of seven bits can be read off the bytes, and a
byte in the middle of a character is never taken for one.

* `IsByteOf` -- a byte of a character;
* `exists_byteAt` -- the byte at a place is one of a character there;
* `byteAt_eq_some_iff` -- a character of seven bits, read off the bytes;
* `byteBefore_eq_some_iff` -- the same before a place.
-/
import ShaderFabric.Proofs.Text.Slice

namespace ShaderFabric

/-! ## 1. The bytes of a character -/

/-- **A byte of a character**, taken as a character itself: a character of seven bits is its own
byte, and all bytes of any other one have eight. -/
def IsByteOf (c byte : Char) : Prop := byte = c ∨ 128 ≤ c.toNat ∧ 128 ≤ byte.toNat

theorem isByteOf_of_mem {c : Char} {byte : UInt8} (h : byte ∈ String.utf8EncodeChar c) :
    IsByteOf c (Char.ofUInt8 byte) := by
  have hvalue : (Char.ofUInt8 byte).toNat = byte.toNat := rfl
  have hlong : ∀ n, 128 ≤ n → n < 256 → byte = UInt8.ofNat n →
      128 ≤ (Char.ofUInt8 byte).toNat := by
    rintro n hlow hhigh rfl
    rwa [hvalue, UInt8.toNat_ofNat', Nat.mod_eq_of_lt hhigh]
  unfold String.utf8EncodeChar at h
  dsimp only at h
  split at h
  · rename_i hc
    left
    rw [List.mem_singleton] at h
    subst h
    refine Char.toNat_inj.mp ?_
    rw [hvalue, UInt8.toNat_ofNat']
    exact Nat.mod_eq_of_lt (by omega)
  · rename_i hc
    refine .inr ⟨Nat.lt_of_not_le hc, ?_⟩
    split at h
    · simp only [List.mem_cons, List.not_mem_nil, or_false] at h
      rcases h with h | h <;> exact hlong _ (by omega) (by omega) h
    · split at h
      · simp only [List.mem_cons, List.not_mem_nil, or_false] at h
        rcases h with h | h | h <;> exact hlong _ (by omega) (by omega) h
      · simp only [List.mem_cons, List.not_mem_nil, or_false] at h
        rcases h with h | h | h | h <;> exact hlong _ (by omega) (by omega) h

/-- **What only characters of seven bits have**, a byte has exactly if its character has. -/
theorem IsByteOf.congr {c byte : Char} (h : IsByteOf c byte) {p : Char → Bool}
    (hp : ∀ d, p d = true → d.toNat < 128) : p byte = p c := by
  rcases h with rfl | ⟨hc, hbyte⟩
  · rfl
  · have hnot : ∀ d : Char, 128 ≤ d.toNat → p d = false := fun d hd =>
      eq_false_of_ne_true fun h => Nat.not_lt_of_le hd (hp d h)
    rw [hnot byte hbyte, hnot c hc]

/-- A byte is a character of seven bits exactly if it is the byte of that. -/
theorem IsByteOf.eq_iff {c byte d : Char} (h : IsByteOf c byte) (hd : d.toNat < 128) :
    byte = d ↔ c = d := by
  have hsame : decide (byte = d) = decide (c = d) :=
    h.congr (p := fun e => decide (e = d)) fun e he => of_decide_eq_true he ▸ hd
  exact decide_eq_decide.mp hsame

theorem utf8Size_of_lt {c : Char} (h : c.toNat < 128) : c.utf8Size = 1 := by
  rw [Char.utf8Size_eq_one_iff, UInt32.le_iff_toNat_le]
  exact Nat.le_of_lt_succ h

theorem textSize_concat (front : List Char) (c : Char) :
    textSize (front ++ [c]) = textSize front + c.utf8Size := textSize_append front [c]

/-! ## 2. Bytes at places -/

/-- The byte at a place, if the text goes so far. -/
def byteAt (cs : List Char) (place : Nat) : Option Char :=
  (charBytes cs)[place]?.map Char.ofUInt8

theorem length_charBytes : ∀ cs : List Char, (charBytes cs).length = textSize cs
  | [] => rfl
  | c :: rest => by
    have hfirst : charBytes (c :: rest) = String.utf8EncodeChar c ++ charBytes rest :=
      List.flatMap_cons
    rw [hfirst, List.length_append, String.length_utf8EncodeChar, length_charBytes rest,
      textSize_cons]

theorem byteAt_eq_none_iff {cs : List Char} {place : Nat} :
    byteAt cs place = none ↔ textSize cs ≤ place := by
  rw [byteAt, Option.map_eq_none_iff, List.getElem?_eq_none_iff, length_charBytes]

/-- What stands before a place is passed over. -/
theorem byteAt_append (front back : List Char) (count : Nat) :
    byteAt (front ++ back) (textSize front + count) = byteAt back count := by
  have hlength := length_charBytes front
  rw [byteAt, charBytes_append, List.getElem?_append_right (by omega), hlength,
    Nat.add_sub_cancel_left, byteAt]

/-- **The byte at a place** is one of a character there. -/
theorem exists_byteAt (front : List Char) {inside : List Char} (back : List Char) {count : Nat}
    (h : count < textSize inside) :
    ∃ c ∈ inside, ∃ byte, byteAt (front ++ (inside ++ back)) (textSize front + count) = some byte ∧
      IsByteOf c byte := by
  rw [← length_charBytes] at h
  have hmem : (charBytes inside)[count] ∈ charBytes inside := List.getElem_mem h
  obtain ⟨c, hc, hbyte⟩ := List.mem_flatMap.mp hmem
  refine ⟨c, hc, _, ?_, isByteOf_of_mem hbyte⟩
  rw [byteAt_append, byteAt, charBytes_append, List.getElem?_append_left h,
    List.getElem?_eq_getElem h]
  rfl

/-- The bytes of one character. -/
theorem exists_byteAt_cons (front : List Char) (c : Char) (back : List Char) {count : Nat}
    (h : count < c.utf8Size) :
    ∃ byte, byteAt (front ++ c :: back) (textSize front + count) = some byte ∧
      IsByteOf c byte := by
  have hinside : count < textSize [c] := h
  obtain ⟨d, hd, byte, hbyte, hof⟩ := exists_byteAt front back hinside
  rw [List.mem_singleton] at hd
  subst hd
  exact ⟨byte, hbyte, hof⟩

/-- The first byte of a character. -/
theorem exists_byteAt_head (front : List Char) (c : Char) (back : List Char) :
    ∃ byte, byteAt (front ++ c :: back) (textSize front) = some byte ∧ IsByteOf c byte :=
  exists_byteAt_cons front c back c.utf8Size_pos

/-- At the end of a text there is no byte. -/
theorem byteAt_end (front : List Char) : byteAt (front ++ []) (textSize front) = none := by
  rw [List.append_nil, byteAt_eq_none_iff]

/-! ## 3. Characters of seven bits -/

/-- **A character of seven bits** stands at a place exactly if the byte there says so. -/
theorem byteAt_eq_some_iff (front : List Char) {back : List Char} {d : Char} (hd : d.toNat < 128) :
    byteAt (front ++ back) (textSize front) = some d ↔ back.head? = some d := by
  cases back with
  | nil =>
    rw [byteAt_end]
    exact iff_of_false (fun h => by cases h) fun h => by cases h
  | cons c back =>
    obtain ⟨byte, hbyte, hof⟩ := exists_byteAt_head front c back
    rw [hbyte, List.head?_cons, Option.some.injEq, Option.some.injEq, hof.eq_iff hd]

/-- The same right behind a character of seven bits. -/
theorem byteAt_succ_eq_some_iff (front : List Char) {back : List Char} {c d : Char}
    (hc : c.toNat < 128) (hd : d.toNat < 128) :
    byteAt (front ++ c :: back) (textSize front + 1) = some d ↔ back.head? = some d := by
  have hplace : textSize front + 1 = textSize (front ++ [c]) := by
    rw [textSize_concat, utf8Size_of_lt hc]
  have htext : front ++ c :: back = (front ++ [c]) ++ back := by
    rw [List.append_assoc, List.singleton_append]
  rw [hplace, htext, byteAt_eq_some_iff _ hd]

/-- Two characters of seven bits next to each other. -/
theorem byteAt_pair (front : List Char) {c d : Char} (back : List Char) (hc : c.toNat < 128)
    (hd : d.toNat < 128) :
    byteAt (front ++ c :: d :: back) (textSize front) = some c ∧
      byteAt (front ++ c :: d :: back) (textSize front + 1) = some d :=
  ⟨(byteAt_eq_some_iff front hc).mpr rfl, (byteAt_succ_eq_some_iff front hc hd).mpr rfl⟩

/-- **A character of seven bits** stands before a place exactly if the byte there says so. -/
theorem byteBefore_eq_some_iff {front : List Char} (back : List Char) {d : Char}
    (hd : d.toNat < 128) :
    (0 < textSize front ∧ byteAt (front ++ back) (textSize front - 1) = some d) ↔
      front.getLast? = some d := by
  rcases List.eq_nil_or_concat front with rfl | ⟨before, c, hfront⟩
  · exact iff_of_false (fun h => absurd h.1 (Nat.lt_irrefl 0)) fun h => by cases h
  · rw [List.concat_eq_append] at hfront
    subst hfront
    have hpos := c.utf8Size_pos
    have hsize := textSize_concat before c
    have hplace : textSize (before ++ [c]) - 1 = textSize before + (c.utf8Size - 1) := by omega
    have hlast : c.utf8Size - 1 < c.utf8Size := by omega
    obtain ⟨byte, hbyte, hof⟩ := exists_byteAt_cons before c back hlast
    rw [and_iff_right (by omega), hplace, List.append_assoc, List.singleton_append, hbyte,
      List.getLast?_concat, Option.some.injEq, Option.some.injEq, hof.eq_iff hd]

end ShaderFabric
