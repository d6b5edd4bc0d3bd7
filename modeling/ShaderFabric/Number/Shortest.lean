/-
# The shortest decimal of a binary number

A finite word stands for every real that rounds to it.  `Format.shortest` gives the decimal with
the fewest digits in that interval and, among those, the nearest to the word's own magnitude.
For each count of digits only the two neighbours of the magnitude on that decimal grid matter: if
any point of the grid is in the interval, so is one of the two.

How a decimal is laid out as text is a record, `DecimalLayout`: which exponents are written
positionally, how an exponent is marked, which way an exact tie goes.
-/
import ShaderFabric.Number.Binary

namespace ShaderFabric

/-! ## 1. Decimals -/

/-- The decimal `digits * 10 ^ power`. -/
structure Decimal where
  digits : Nat
  power : Int
  deriving Repr, DecidableEq

namespace Decimal

/-- The same decimal with no zero at the end of its digits; `fuel` bounds the zeros taken. -/
def trim (d : Decimal) : Nat → Decimal
  | 0 => d
  | fuel + 1 =>
    if d.digits ≠ 0 ∧ d.digits % 10 = 0 then trim ⟨d.digits / 10, d.power + 1⟩ fuel else d

/-- The power of ten of the first digit. -/
def leading (d : Decimal) : Int :=
  d.power + (Nat.toDigits 10 d.digits).length - 1

end Decimal

/-! ## 2. The interval of a word -/

/-- The reals that round to a word, as fractions over one denominator: the magnitude and the two
ends, which belong to the interval when the word is even. -/
structure Interval where
  low : Nat
  value : Nat
  high : Nat
  den : Nat
  closed : Bool

/-- The interval of a finite word that is not zero.  Below a power of two the words are twice as
dense, except at the format's least exponent. -/
def Format.interval (format : Format) (word : Nat) : Interval :=
  let (m, q) := format.decode word
  let below := if m = Nat.pow 2 format.fraction ∧ format.least < q then 1 else 2
  let (scale, den) := scaleBy 2 (q - 2) 1 1
  { low := (4 * m - below) * scale, value := 4 * m * scale, high := (4 * m + 2) * scale,
    den := den, closed := m % 2 = 0 }

/-- Whether the decimal lies in the interval. -/
def Interval.holds (interval : Interval) (d : Decimal) : Bool :=
  let (num, den) := scaleBy 10 d.power d.digits 1
  let point := num * interval.den
  let low := interval.low * den
  let high := interval.high * den
  if interval.closed then low ≤ point ∧ point ≤ high else low < point ∧ point < high

/-- The largest power of ten that does not exceed the magnitude.  The magnitude is scaled by a
power of ten that makes every finite word of the two formats at least one. -/
def Interval.leading (interval : Interval) : Int :=
  (Nat.toDigits 10 (interval.value * Nat.pow 10 400 / interval.den)).length - 401

/-- Of the magnitude's two neighbours on the grid of `10 ^ power`, the one to use: the only one in
the interval, else the nearer; `tieUp` settles a tie upwards, otherwise it goes to the even one. -/
def Interval.onGrid (interval : Interval) (tieUp : Bool) (power : Int) : Option Decimal :=
  let (num, den) := scaleBy 10 (-power) interval.value interval.den
  let down := num / den
  let rest := 2 * (num % den)
  let lower : Decimal := ⟨down, power⟩
  let upper : Decimal := ⟨down + 1, power⟩
  match interval.holds lower, interval.holds upper with
  | true, false => some lower
  | false, true => some upper
  | false, false => none
  | true, true =>
    if rest < den then some lower
    else if den < rest then some upper
    else if tieUp ∨ down % 2 = 1 then some upper
    else some lower

/-- The first grid with a hit, from coarse to fine. -/
def Interval.coarsest (interval : Interval) (tieUp : Bool) (power : Int) : Nat → Option Decimal
  | 0 => none
  | fuel + 1 =>
    match interval.onGrid tieUp power with
    | some d => some d
    | none => interval.coarsest tieUp (power - 1) fuel

/-- The shortest decimal that rounds to a finite word; seventeen digits always suffice. -/
def Format.shortest (format : Format) (tieUp : Bool) (word : Nat) : Decimal :=
  if word = 0 then ⟨0, 0⟩ else
  let interval := format.interval word
  ((interval.coarsest tieUp interval.leading 17).getD ⟨0, 0⟩).trim 20

/-! ## 3. Layout -/

/-- How a decimal is written. -/
structure DecimalLayout where
  /-- The least and the greatest leading power of ten written without an exponent. -/
  positionalFrom : Int
  positionalTo : Int
  /-- Whether a positive exponent carries its sign. -/
  plus : Bool
  /-- Whether an exact tie between two shortest decimals goes up instead of to the even one. -/
  tieUp : Bool

/-- The characters `0`, `count` times. -/
def zeros (count : Nat) : String := String.ofList (List.replicate count '0')

/-- A decimal that is not zero as text; a whole number in positional form ends in `.0`. -/
def DecimalLayout.write (layout : DecimalLayout) (d : Decimal) : String :=
  let digits := Nat.toDigits 10 d.digits
  let leading := d.leading
  if layout.positionalFrom ≤ leading ∧ leading ≤ layout.positionalTo then
    if 0 ≤ d.power then String.ofList digits ++ zeros d.power.toNat ++ ".0"
    else if 0 ≤ leading then
      let whole := (leading + 1).toNat
      String.ofList (digits.take whole) ++ "." ++ String.ofList (digits.drop whole)
    else "0." ++ zeros (-leading - 1).toNat ++ String.ofList digits
  else
    let sign := if leading < 0 then "-" else if layout.plus then "+" else ""
    let mantissa :=
      match digits with
      | [] => ""
      | [c] => c.toString
      | c :: rest => c.toString ++ "." ++ String.ofList rest
    mantissa ++ "e" ++ sign ++ toString leading.natAbs

end ShaderFabric
