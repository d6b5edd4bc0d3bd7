/-
# Binary floating-point formats

A finite magnitude of a binary format is `m * 2 ^ q`.  Its word packs the exponent above the
fraction, and the words of a format are ordered as their values are: the step from one word to
the next is the step from one magnitude to the next.  So rounding is a statement about `Nat`:

* `Format.decode`: the pair `(m, q)` of a word;
* `Format.round`: the word nearest to a quotient of natural numbers, a tie going to the even word,
  anything beyond the largest finite magnitude going to the word of infinity.

Everything is exact arithmetic on `Nat` and `Int`; the sign is kept apart.
-/

namespace ShaderFabric

/-! ## 1. Quotients -/

/-- `num / den` rounded to the nearest natural number, a tie going to the even one. -/
def roundHalfEven (num den : Nat) : Nat :=
  let whole := num / den
  let rest := 2 * (num % den)
  if rest < den then whole
  else if den < rest then whole + 1
  else whole + whole % 2

/-- The pair `(num, den)` scaled by `base ^ power`; a negative power goes to the denominator. -/
def scaleBy (base : Nat) (power : Int) (num den : Nat) : Nat × Nat :=
  if 0 ≤ power then (num * Nat.pow base power.toNat, den)
  else (num, den * Nat.pow base (-power).toNat)

/-! ## 2. Formats -/

/-- The widths in bits of the two fields below the sign. -/
structure Format where
  fraction : Nat
  exponent : Nat
  deriving Repr, DecidableEq

namespace Format

/-- Sixty-four bits in all. -/
def double : Format := ⟨52, 11⟩

/-- Thirty-two bits in all. -/
def single : Format := ⟨23, 8⟩

/-- The exponent `q` of the smallest magnitudes. -/
def least (format : Format) : Int :=
  2 - Nat.pow 2 (format.exponent - 1) - format.fraction

/-- The word of infinity: all exponent bits set, no fraction. -/
def infinity (format : Format) : Nat :=
  (Nat.pow 2 format.exponent - 1) * Nat.pow 2 format.fraction

/-- The word with only the sign bit set. -/
def signBit (format : Format) : Nat :=
  Nat.pow 2 (format.exponent + format.fraction)

/-- The pair `(m, q)` with `m * 2 ^ q` the magnitude of a finite word. -/
def decode (format : Format) (word : Nat) : Nat × Int :=
  let biased := word / Nat.pow 2 format.fraction
  let fraction := word % Nat.pow 2 format.fraction
  if biased = 0 then (fraction, format.least)
  else (Nat.pow 2 format.fraction + fraction, format.least + (biased - 1 : Nat))

/-- The exponent at which `num / den` is rounded: the quotient, counted in units of `2 ^ q`, has
one bit more than the fraction, unless the format's least exponent forbids it. -/
def unitFor (format : Format) (num den : Nat) : Int :=
  let q := max format.least ((num.log2 : Int) - den.log2 - 1 - format.fraction)
  let (n, d) := scaleBy 2 (-q) num den
  if n / d < Nat.pow 2 (format.fraction + 1) then q else q + 1

/-- The word nearest to `num / den`. -/
def round (format : Format) (num den : Nat) : Nat :=
  if num = 0 then 0 else
  let q := format.unitFor num den
  let (n, d) := scaleBy 2 (-q) num den
  min format.infinity ((q - format.least).toNat * Nat.pow 2 format.fraction + roundHalfEven n d)

/-- The word nearest to `digits * 10 ^ power`.  Powers far outside every format are cut off
before they are computed: they are infinite or zero whatever the digits are. -/
def roundDecimal (format : Format) (digits : Nat) (power : Int) : Nat :=
  if digits = 0 then 0
  else if 400 < power then format.infinity
  else if power + (digits.log2 : Int) < -2000 then 0
  else
    let (num, den) := scaleBy 10 power digits 1
    format.round num den

/-- The word nearest to `m * 2 ^ q`. -/
def roundBinary (format : Format) (m : Nat) (q : Int) : Nat :=
  let (num, den) := scaleBy 2 q m 1
  format.round num den

end Format

end ShaderFabric
