/-
# Check values

Two numbers by which a reader tells that bytes arrived unchanged.
-/

namespace ShaderFabric

namespace Checksum

/-- Divides a remainder by the polynomial, bit by bit from the lowest. -/
def reduce : Nat → UInt32 → UInt32
  | 0, r => r
  | bits + 1, r => reduce bits (if r &&& 1 = 1 then (r >>> 1) ^^^ 0xEDB88320 else r >>> 1)

/-- The cyclic check value of bytes. -/
def cyclic (bytes : List UInt8) : UInt32 :=
  (bytes.foldl (fun r byte => reduce 8 (r ^^^ byte.toUInt32)) 0xFFFFFFFF) ^^^ 0xFFFFFFFF

/-- The sum of bytes and the sum of those sums, each below `65521`. -/
def sums (bytes : List UInt8) : Nat × Nat :=
  bytes.foldl (fun (a, b) byte =>
    let a := (a + byte.toNat) % 65521
    (a, (b + a) % 65521)) (1, 0)

/-- Both sums in one number. -/
def summed (bytes : List UInt8) : Nat :=
  let (a, b) := sums bytes
  65536 * b + a

end Checksum

end ShaderFabric
