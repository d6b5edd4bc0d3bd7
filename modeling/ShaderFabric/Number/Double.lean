/-
# Numbers of sixty-four and thirty-two bits

`Double` and `Single` are the bit patterns of the two formats, sign first.  The operations are
those the rest of the library needs: conversion from integers and decimals, the product and the
quotient, widening and narrowing, the comparisons, and two ways of writing a number as text.
-/
import ShaderFabric.Number.Shortest

namespace ShaderFabric

/-- A number of sixty-four bits. -/
structure Double where
  bits : UInt64
  deriving Repr, DecidableEq

/-- A number of thirty-two bits. -/
structure Single where
  bits : UInt32
  deriving Repr, DecidableEq

/-! ## 1. Doubles -/

namespace Double

/-- The number with a sign and a magnitude word. -/
def ofWord (negative : Bool) (word : Nat) : Double :=
  ⟨UInt64.ofNat (if negative then Format.double.signBit + word else word)⟩

/-- Whether the sign bit is set. -/
def negative (x : Double) : Bool := Format.double.signBit ≤ x.bits.toNat

/-- The bits below the sign. -/
def word (x : Double) : Nat := x.bits.toNat % Format.double.signBit

def isNaN (x : Double) : Bool := Format.double.infinity < x.word

def isInfinite (x : Double) : Bool := x.word = Format.double.infinity

def isFinite (x : Double) : Bool := x.word < Format.double.infinity

def zero : Double := ⟨0⟩

/-- The quiet pattern that arithmetic answers when there is no number to answer. -/
def nan : Double := ofWord false (Format.double.infinity + 0x8000000000000)

def infinity (negative : Bool) : Double := ofWord negative Format.double.infinity

/-- The number nearest to an integer. -/
def ofInt (i : Int) : Double := ofWord (i < 0) (Format.double.round i.natAbs 1)

/-- The number nearest to a decimal, `digits * 10 ^ power` with a sign. -/
def ofDecimal (negative : Bool) (digits : Nat) (power : Int) : Double :=
  ofWord negative (Format.double.roundDecimal digits power)

/-- Equality of numbers: zero equals its negative, no pattern without a number equals anything. -/
def sameNumber (x y : Double) : Bool :=
  !x.isNaN && !y.isNaN && (x.bits = y.bits || (x.word = 0 && y.word = 0))

/-- The product of finite numbers. -/
def mul (x y : Double) : Double :=
  let (m, q) := Format.double.decode x.word
  let (n, r) := Format.double.decode y.word
  ofWord (x.negative != y.negative) (Format.double.roundBinary (m * n) (q + r))

/-- The quotient of finite numbers by a finite number that is not zero. -/
def div (x y : Double) : Double :=
  let (m, q) := Format.double.decode x.word
  let (n, r) := Format.double.decode y.word
  let (num, den) := scaleBy 2 (q - r) m n
  ofWord (x.negative != y.negative) (Format.double.round num den)

/-- The sign changed. -/
def neg (x : Double) : Double := ofWord (!x.negative) x.word

/-- Data layout of numbers in documents: positional from `1e-5` to below `1e16`, a sign on every
exponent, ties to even. -/
def layout : DecimalLayout := ⟨-5, 15, true, false⟩

/-- A finite number as text, always with a point or an exponent. -/
def toText (x : Double) : String :=
  let sign := if x.negative then "-" else ""
  sign ++ (if x.word = 0 then "0.0" else layout.write (Format.double.shortest layout.tieUp x.word))

end Double

/-! ## 2. Singles -/

namespace Single

def ofWord (negative : Bool) (word : Nat) : Single :=
  ⟨UInt32.ofNat (if negative then Format.single.signBit + word else word)⟩

def negative (x : Single) : Bool := Format.single.signBit ≤ x.bits.toNat

def word (x : Single) : Nat := x.bits.toNat % Format.single.signBit

def isNaN (x : Single) : Bool := Format.single.infinity < x.word

def isInfinite (x : Single) : Bool := x.word = Format.single.infinity

def zero : Single := ⟨0⟩

def one : Single := ⟨0x3f800000⟩

def nan : Single := ofWord false (Format.single.infinity + 0x400000)

/-- The single nearest to a double; too large a magnitude becomes infinite. -/
def ofDouble (x : Double) : Single :=
  if x.isNaN then nan
  else if x.isInfinite then ofWord x.negative Format.single.infinity
  else
    let (m, q) := Format.double.decode x.word
    ofWord x.negative (Format.single.roundBinary m q)

/-- The same number as a double. -/
def toDouble (x : Single) : Double :=
  if x.isNaN then Double.nan
  else if x.isInfinite then Double.infinity x.negative
  else
    let (m, q) := Format.single.decode x.word
    Double.ofWord x.negative (Format.double.roundBinary m q)

/-- The single nearest to a decimal. -/
def ofDecimal (negative : Bool) (digits : Nat) (power : Int) : Single :=
  ofWord negative (Format.single.roundDecimal digits power)

/-- Equality of numbers, as `Double.sameNumber`. -/
def sameNumber (x y : Single) : Bool :=
  !x.isNaN && !y.isNaN && (x.bits = y.bits || (x.word = 0 && y.word = 0))

/-- Whether the number is below one: every negative number is, and among the others the words are
ordered as the magnitudes are. -/
def belowOne (x : Single) : Bool :=
  !x.isNaN && (x.negative || x.word < one.bits.toNat)

/-- The four bytes, least significant first. -/
def bytes (x : Single) : List UInt8 :=
  [x.bits.toUInt8, (x.bits >>> 8).toUInt8, (x.bits >>> 16).toUInt8, (x.bits >>> 24).toUInt8]

/-- Layout of numbers in reports: positional from `1e-4` to below `1e16`, ties upwards. -/
def layout : DecimalLayout := ⟨-4, 15, false, true⟩

/-- A number as a report shows it. -/
def toText (x : Single) : String :=
  if x.isNaN then "NaN" else
  let sign := if x.negative then "-" else ""
  sign ++
    (if x.isInfinite then "inf"
    else if x.word = 0 then "0.0"
    else layout.write (Format.single.shortest layout.tieUp x.word))

end Single

end ShaderFabric
