/-
# Numbers in command lines and headers of settings

Whole numbers and decimals as people write them: an optional sign and ASCII digits.
-/
import ShaderFabric.Number.Double

namespace ShaderFabric

/-- The number that decimal digits spell. -/
def natOfDigits (digits : List Char) : Nat :=
  digits.foldl (fun n c => n * 10 + (c.toNat - '0'.toNat)) 0

/-- A natural number of at most `bits` bits: digits, and perhaps a plus before them. -/
def natOfText? (bits : Nat) (text : String) : Option Nat :=
  let digits := match text.toList with
    | '+' :: rest => rest
    | cs => cs
  if digits.isEmpty ∨ !digits.all Char.isDigit then none
  else
    let value := natOfDigits digits
    if value < Nat.pow 2 bits then some value else none

/-- A natural number of at most `bits` bits, where zero may also carry a minus. -/
def natOfSignedText? (bits : Nat) (text : String) : Option Nat :=
  match text.toList with
  | '-' :: digits =>
    if !digits.isEmpty ∧ digits.all (· = '0') then some 0 else none
  | _ => natOfText? bits text

/-- An exponent: a sign and digits. -/
def exponentOf? (cs : List Char) : Option Int :=
  let (negative, digits) := match cs with
    | '+' :: rest => (false, rest)
    | '-' :: rest => (true, rest)
    | rest => (false, rest)
  if digits.isEmpty ∨ !digits.all Char.isDigit then none
  else
    let value : Int := natOfDigits digits
    some (if negative then -value else value)

/-- The single nearest to a decimal without its sign: digits with a period among them or at one of
their ends, and perhaps an exponent; or the names of infinity and of no number. -/
def unsignedSingle? (negative : Bool) (cs : List Char) : Option Single :=
  let name := String.ofList (cs.map Char.toLower)
  if name = "inf" ∨ name = "infinity" then some (Single.ofWord negative Format.single.infinity)
  else if name = "nan" then some Single.nan
  else
    let whole := cs.takeWhile Char.isDigit
    let rest := cs.drop whole.length
    let (fraction, rest) := match rest with
      | '.' :: rest => (rest.takeWhile Char.isDigit, rest.dropWhile Char.isDigit)
      | rest => ([], rest)
    if whole.isEmpty ∧ fraction.isEmpty then none
    else
      let power := match rest with
        | [] => some 0
        | mark :: rest => if mark = 'e' ∨ mark = 'E' then exponentOf? rest else none
      power.map fun power =>
        Single.ofDecimal negative (natOfDigits (whole ++ fraction)) (power - fraction.length)

/-- The single nearest to a decimal. -/
def singleOfText? (text : String) : Option Single :=
  match text.toList with
  | '+' :: rest => unsignedSingle? false rest
  | '-' :: rest => unsignedSingle? true rest
  | cs => unsignedSingle? false cs

end ShaderFabric
