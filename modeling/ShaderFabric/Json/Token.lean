/-
# JSON tokens

A JSON text as a list of tokens.  A token is recognised from the characters that start it, and
`Token.scan` walks the text once, skipping the characters of the token it has just recognised.
A character that starts no token, or starts one that is never finished, gives `fault`, the last
token of the list.

Numbers are read without searching for the nearest double: the leading digits that fit a word of
sixty-four bits are converted, and the result is multiplied or divided by a power of ten.
-/
import ShaderFabric.Document

namespace ShaderFabric

namespace Json

inductive Token
  | openList
  | closeList
  | openObject
  | closeObject
  | comma
  | colon
  | scalar (value : Document)
  | fault

/-! ## 1. Numbers -/

/-- The largest significand that is kept exactly. -/
def largestWord : Nat := 0xFFFFFFFFFFFFFFFF

/-- The value of a digit. -/
def digitValue (c : Char) : Nat := c.toNat - '0'.toNat

/-- Divides by `10 ^ 308` until the power of ten is within one division. -/
def divideDown (x : Double) (power : Nat) : Double :=
  if x.word = 0 then x
  else if h : power ≤ 308 then x.div (Double.ofDecimal false 1 power)
  else divideDown (x.div (Double.ofDecimal false 1 308)) (power - 308)
termination_by power

/-- A number from its significand and its power of ten; `none` when it is out of range. -/
def assemble (negative : Bool) (significand : Nat) (power : Int) : Option Double :=
  let x := Double.ofInt significand
  let magnitude :=
    if power < 0 then some (divideDown x power.natAbs)
    else if power ≤ 308 then
      let product := x.mul (Double.ofDecimal false 1 power)
      if product.isInfinite then none else some product
    else if x.word = 0 then some x
    else none
  magnitude.map fun y => if negative then y.neg else y

/-- The digits of a significand: those that fit a word, and how many follow them. -/
def takeDigits (significand : Nat) : List Char → Nat × Nat
  | [] => (significand, 0)
  | c :: rest =>
    let next := significand * 10 + digitValue c
    if next ≤ largestWord then takeDigits next rest else (significand, rest.length + 1)

/-- The digits of an exponent, `none` when they exceed thirty-one bits. -/
def exponentValue (digits : List Char) : Option Nat :=
  let value := digits.foldl (fun n c => n * 10 + digitValue c) 0
  if value < 0x80000000 then some value else none

/-- A number after its significand: the value, and how many characters the exponent takes. -/
def withExponent (negative : Bool) (significand : Nat) (power : Int) (cs : List Char) :
    Option Double × Nat :=
  match cs with
  | mark :: rest =>
    if mark = 'e' ∨ mark = 'E' then
      let (down, signLength, digits) :=
        match rest with
        | '+' :: more => (false, 1, more.takeWhile Char.isDigit)
        | '-' :: more => (true, 1, more.takeWhile Char.isDigit)
        | _ => (false, 0, rest.takeWhile Char.isDigit)
      let length := 1 + signLength + digits.length
      if digits.isEmpty then (none, length)
      else
        match exponentValue digits with
        | some exponent =>
          let power := if down then power - exponent else power + exponent
          (assemble negative significand power, length)
        | none =>
          if significand ≠ 0 ∧ !down then (none, length)
          else (some (Double.ofWord negative 0), length)
    else (assemble negative significand power, 0)
  | [] => (assemble negative significand power, 0)

/-- A number from its whole digits on: the token, and how many characters it takes. -/
def unsigned (negative : Bool) (cs : List Char) : Token × Nat :=
  let whole := cs.takeWhile Char.isDigit
  let after := cs.drop whole.length
  let ofDouble (length : Nat) (x : Option Double × Nat) : Token × Nat :=
    (match x.1 with
      | some y => .scalar (.float y)
      | none => .fault, length + x.2)
  if whole.isEmpty ∨ (whole.length > 1 ∧ whole.head? = some '0') then (.fault, 1)
  else
    let (significand, extra) := takeDigits 0 whole
    match after with
    | '.' :: more =>
      let decimals := more.takeWhile Char.isDigit
      let (full, ignored) := if extra = 0 then takeDigits significand decimals
        else (takeDigits significand decimals)
      if decimals.isEmpty then (.fault, 1)
      else
        let taken := decimals.length - ignored
        ofDouble (whole.length + 1 + decimals.length)
          (withExponent negative full ((extra : Int) - taken) (more.drop decimals.length))
    | 'e' :: _ | 'E' :: _ => ofDouble whole.length (withExponent negative significand extra after)
    | _ =>
      if extra ≠ 0 then ofDouble whole.length (assemble negative significand extra, 0)
      else if !negative then (.scalar (.int significand), whole.length)
      else if significand = 0 ∨ 0x8000000000000000 < significand then
        (.scalar (.float (Double.ofInt significand).neg), whole.length)
      else (.scalar (.int (-significand)), whole.length)

/-! ## 2. Strings -/

/-- The value of a hexadecimal digit. -/
def hexDigit? (c : Char) : Option Nat :=
  if c.isDigit then some (c.toNat - 48)
  else if 'a' ≤ c ∧ c ≤ 'f' then some (c.toNat - 87)
  else if 'A' ≤ c ∧ c ≤ 'F' then some (c.toNat - 55)
  else none

/-- The value of four hexadecimal digits. -/
def hexUnit? (a b c d : Char) : Option Nat := do
  let a ← hexDigit? a
  let b ← hexDigit? b
  let c ← hexDigit? c
  let d ← hexDigit? d
  return ((a * 16 + b) * 16 + c) * 16 + d

/-- The character of a one-letter escape. -/
def escape? : Char → Option Char
  | '"' => some '"'
  | '\\' => some '\\'
  | '/' => some '/'
  | 'b' => some '\x08'
  | 'f' => some '\x0c'
  | 'n' => some '\n'
  | 'r' => some '\r'
  | 't' => some '\t'
  | _ => none

/-- The characters of a string up to its closing quote, and how many characters were taken.
`high` is the first half of a pair of units that waits for the second. -/
def quoted (high : Option Nat) (taken : Nat) (text : List Char) : List Char → Option (String × Nat)
  | [] => none
  | '\\' :: 'u' :: a :: b :: c :: d :: rest =>
    match hexUnit? a b c d, high with
    | none, _ => none
    | some unit, none =>
      if 0xd800 ≤ unit ∧ unit < 0xdc00 then quoted (some unit) (taken + 6) text rest
      else if 0xdc00 ≤ unit ∧ unit < 0xe000 then none
      else quoted none (taken + 6) (Char.ofNat unit :: text) rest
    | some unit, some first =>
      if 0xdc00 ≤ unit ∧ unit < 0xe000 then
        let point := 0x10000 + (first - 0xd800) * 0x400 + (unit - 0xdc00)
        quoted none (taken + 6) (Char.ofNat point :: text) rest
      else none
  | '\\' :: e :: rest =>
    match escape? e, high with
    | some c, none => quoted none (taken + 2) (c :: text) rest
    | _, _ => none
  | c :: rest =>
    if high.isSome then none
    else if c = '"' then some (String.ofList text.reverse, taken + 1)
    else if c = '\\' ∨ c.toNat < 0x20 then none
    else quoted none (taken + 1) (c :: text) rest

/-! ## 3. The token list -/

/-- The blanks between tokens. -/
def isBlank (c : Char) : Bool := c = ' ' || c = '\n' || c = '\t' || c = '\r'

/-- The token that starts with a character, and how many characters it takes. -/
def Token.first (c : Char) (rest : List Char) : Token × Nat :=
  match c with
  | '[' => (.openList, 1)
  | ']' => (.closeList, 1)
  | '{' => (.openObject, 1)
  | '}' => (.closeObject, 1)
  | ',' => (.comma, 1)
  | ':' => (.colon, 1)
  | '"' =>
    match quoted none 0 [] rest with
    | some (text, taken) => (.scalar (.text text), taken + 1)
    | none => (.fault, 1)
  | '-' =>
    let (token, length) := unsigned true rest
    (token, length + 1)
  | 'n' => if "ull".toList.isPrefixOf rest then (.scalar .null, 4) else (.fault, 1)
  | 't' => if "rue".toList.isPrefixOf rest then (.scalar (.bool true), 4) else (.fault, 1)
  | 'f' => if "alse".toList.isPrefixOf rest then (.scalar (.bool false), 5) else (.fault, 1)
  | _ => if c.isDigit then unsigned false (c :: rest) else (.fault, 1)

/-- The tokens of a text, the next `skip` characters belonging to a token already seen. -/
def Token.scan (skip : Nat) : List Char → List Token
  | [] => []
  | c :: rest =>
    match skip with
    | skip + 1 => scan skip rest
    | 0 =>
      if isBlank c then scan 0 rest
      else
        match Token.first c rest with
        | (.fault, _) => [.fault]
        | (token, length) => token :: scan (length - 1) rest

end Json

end ShaderFabric
