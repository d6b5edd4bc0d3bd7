/-
# Hexadecimal text

Bytes as two digits each, and numbers with a given count of digits.
-/
import ShaderFabric.Json.Printer
import ShaderFabric.Json.Token

namespace ShaderFabric

namespace Hex

/-- The digits of bytes. -/
def ofBytes (bytes : List UInt8) : String :=
  String.ofList
    (bytes.flatMap fun byte => [Json.hexChar (byte.toNat / 16), Json.hexChar (byte.toNat % 16)])

/-- The last `count` digits of a number. -/
def ofNat (count n : Nat) : String :=
  String.ofList ((List.range count).reverse.map fun i => Json.hexChar (n / Nat.pow 16 i % 16))

/-- The bytes of pairs of digits; anything that is no digit counts as zero. -/
def bytesOf : List Char → List UInt8
  | high :: low :: rest =>
    UInt8.ofNat ((Json.hexDigit? high).getD 0 * 16 + (Json.hexDigit? low).getD 0) :: bytesOf rest
  | _ => []

/-- The bytes of a text of digits. -/
def toBytes (text : String) : List UInt8 := bytesOf text.toList

end Hex

end ShaderFabric
