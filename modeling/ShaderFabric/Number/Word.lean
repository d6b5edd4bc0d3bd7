/-
# Words of four bytes

Containers and shader blocks hold numbers below `2 ^ 32` as four bytes, in one of two orders.
-/

namespace ShaderFabric

/-- The order of the bytes of a word. -/
inductive ByteOrder
  | leastFirst
  | mostFirst
  deriving Repr, DecidableEq

namespace ByteOrder

/-- The number written by bytes, the least significant first. -/
def number (bytes : List UInt8) : Nat :=
  bytes.foldr (fun byte rest => byte.toNat + 256 * rest) 0

/-- The number that bytes write in this order. -/
def read : ByteOrder → List UInt8 → Nat
  | leastFirst, bytes => number bytes
  | mostFirst, bytes => number bytes.reverse

/-- The word at an offset; bytes past the end are missing from it. -/
def word (order : ByteOrder) (bytes : List UInt8) (offset : Nat) : Nat :=
  order.read ((bytes.drop offset).take 4)

/-- The word at an offset, if all of it is there. -/
def word? (order : ByteOrder) (bytes : List UInt8) (offset : Nat) : Option Nat :=
  if offset + 4 ≤ bytes.length then some (order.word bytes offset) else none

/-- The number of two bytes at an offset. -/
def half (order : ByteOrder) (bytes : List UInt8) (offset : Nat) : Nat :=
  order.read ((bytes.drop offset).take 2)

/-- The `count` bytes of a number, the least significant first; what is too large is cut off. -/
def digits : Nat → Nat → List UInt8
  | 0, _ => []
  | count + 1, n => UInt8.ofNat n :: digits count (n / 256)

/-- The four bytes of a number, the least significant first. -/
def wordBytes (n : Nat) : List UInt8 := digits 4 n

/-- The four bytes of a number, the most significant first. -/
def wordBytesMostFirst (n : Nat) : List UInt8 := (digits 4 n).reverse

/-! ## Laws -/

theorem number_lt (bytes : List UInt8) : number bytes < Nat.pow 256 bytes.length := by
  induction bytes with
  | nil => decide
  | cons byte rest ih =>
    have below := byte.toNat_lt
    have power : Nat.pow 256 (rest.length + 1) = Nat.pow 256 rest.length * 256 := rfl
    simp only [number, List.foldr_cons, List.length_cons] at *
    omega

theorem word_lt (order : ByteOrder) (bytes : List UInt8) (offset : Nat) :
    order.word bytes offset < 0x100000000 := by
  have bound : ∀ part : List UInt8, part.length ≤ 4 → number part < 0x100000000 := fun part h =>
    Nat.lt_of_lt_of_le (number_lt part) (Nat.pow_le_pow_right (by decide : 0 < 256) h)
  have taken : ((bytes.drop offset).take 4).length ≤ 4 := List.length_take_le 4 _
  cases order
  · exact bound _ taken
  · exact bound _ (by rw [List.length_reverse]; exact taken)

theorem length_digits (count n : Nat) : (digits count n).length = count := by
  induction count generalizing n with
  | zero => rfl
  | succ count ih => simp [digits, ih]

theorem number_digits (count n : Nat) : number (digits count n) = n % Nat.pow 256 count := by
  induction count generalizing n with
  | zero => exact (Nat.mod_one n).symm
  | succ count ih =>
    have rest := ih (n / 256)
    have power : Nat.pow 256 (count + 1) = 256 * Nat.pow 256 count := Nat.mul_comm _ _
    simp only [number, digits, List.foldr_cons, UInt8.toNat_ofNat'] at *
    rw [rest, power, Nat.mod_mul]

end ByteOrder

end ShaderFabric
