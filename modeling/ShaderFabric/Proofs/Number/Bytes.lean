/-
# Words within bytes

What is read where a word was written, whatever stands before and after it.
-/
import ShaderFabric.Number.Word

namespace ShaderFabric

namespace ByteOrder

@[simp] theorem length_wordBytes (n : Nat) : (wordBytes n).length = 4 := length_digits 4 n

/-- A word is read as the number it was written for. -/
theorem number_wordBytes {n : Nat} (h : n < 0x100000000) : number (wordBytes n) = n :=
  (number_digits 4 n).trans (Nat.mod_eq_of_lt h)

/-- A word among bytes is that of its own four bytes. -/
theorem word_append (order : ByteOrder) (before after : List UInt8) {part : List UInt8}
    (h : part.length = 4) :
    order.word (before ++ (part ++ after)) before.length = order.read part := by
  rw [word, List.drop_left, List.take_left' h]

/-- A word is read where it was written. -/
theorem word_wordBytes {n : Nat} (h : n < 0x100000000) (before after : List UInt8) :
    leastFirst.word (before ++ (wordBytes n ++ after)) before.length = n :=
  (word_append leastFirst before after (length_wordBytes n)).trans (number_wordBytes h)

end ByteOrder

end ShaderFabric
