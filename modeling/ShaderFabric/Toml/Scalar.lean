/-
# Scalars of TOML

Strings in their four forms, integers, floats, and dates and times.  Each reader takes the
characters from the scalar on and gives the value with the characters after it, or `none` when the
text is not of that form.

A date or a time is data of its own kind; in a document it is an object with one member, named
`dateKey`, that holds its text in a fixed spelling.
-/
import ShaderFabric.Document

namespace ShaderFabric

namespace Toml

/-! ## 1. Characters -/

/-- Blanks within a line. -/
def isBlank (c : Char) : Bool := c = ' ' || c = '\t'

/-- A character that comments and literal strings may hold: no control character but the tab. -/
def isPlain (c : Char) : Bool := c = '\t' || (0x20 ≤ c.toNat && c.toNat ≠ 0x7f)

/-- A character of a key without quotes. -/
def isBare (c : Char) : Bool := c.isAlphanum || c = '-' || c = '_'

def hexDigit? (c : Char) : Option Nat :=
  if c.isDigit then some (c.toNat - 48)
  else if 'a' ≤ c ∧ c ≤ 'f' then some (c.toNat - 87)
  else if 'A' ≤ c ∧ c ≤ 'F' then some (c.toNat - 55)
  else none

/-- The character whose code point the hexadecimal digits spell. -/
def codePoint? (digits : List Char) : Option Char := do
  let values ← digits.mapM hexDigit?
  let point := values.foldl (fun n d => n * 16 + d) 0
  if point.isValidChar then some (Char.ofNat point) else none

/-- The character of a one-letter escape. -/
def escape? : Char → Option Char
  | 'b' => some '\x08'
  | 't' => some '\t'
  | 'n' => some '\n'
  | 'f' => some '\x0c'
  | 'r' => some '\r'
  | '"' => some '"'
  | '\\' => some '\\'
  | _ => none

/-! ## 2. Strings -/

/-- The rest of a basic string, with what has been read so far in reverse. -/
def basic (text : List Char) : List Char → Option (String × List Char)
  | [] => none
  | '\\' :: 'u' :: a :: b :: c :: d :: rest =>
    match codePoint? [a, b, c, d] with
    | some point => basic (point :: text) rest
    | none => none
  | '\\' :: 'U' :: a :: b :: c :: d :: e :: f :: g :: h :: rest =>
    match codePoint? [a, b, c, d, e, f, g, h] with
    | some point => basic (point :: text) rest
    | none => none
  | '\\' :: e :: rest =>
    match escape? e with
    | some c => basic (c :: text) rest
    | none => none
  | c :: rest =>
    if c = '"' then some (String.ofList text.reverse, rest)
    else if isPlain c ∧ c ≠ '\\' then basic (c :: text) rest
    else none

/-- The rest of a literal string. -/
def literal (text : List Char) : List Char → Option (String × List Char)
  | [] => none
  | c :: rest =>
    if c = '\'' then some (String.ofList text.reverse, rest)
    else if isPlain c then literal (c :: text) rest
    else none

/-- Whether a line ends here. -/
def atLineEnd : List Char → Bool
  | '\n' :: _ => true
  | '\r' :: '\n' :: _ => true
  | _ => false

/-- The rest of a basic string of several lines.  `folding` is set after a backslash at the end of
a line, until the next character that is neither blank nor a line's end.  Up to two quotes may
stand before the three that close the string. -/
def basicLines (folding : Bool) (text : List Char) : List Char → Option (String × List Char)
  | [] => none
  | '"' :: '"' :: '"' :: '"' :: '"' :: rest =>
    some (String.ofList ('"' :: '"' :: text).reverse, rest)
  | '"' :: '"' :: '"' :: '"' :: rest => some (String.ofList ('"' :: text).reverse, rest)
  | '"' :: '"' :: '"' :: rest => some (String.ofList text.reverse, rest)
  | '\r' :: '\n' :: rest => basicLines folding (if folding then text else '\n' :: text) rest
  | '\\' :: 'u' :: a :: b :: c :: d :: rest =>
    match codePoint? [a, b, c, d] with
    | some point => basicLines false (point :: text) rest
    | none => none
  | '\\' :: 'U' :: a :: b :: c :: d :: e :: f :: g :: h :: rest =>
    match codePoint? [a, b, c, d, e, f, g, h] with
    | some point => basicLines false (point :: text) rest
    | none => none
  | '\\' :: e :: rest =>
    match escape? e with
    | some c => basicLines false (c :: text) rest
    | none =>
      if atLineEnd ((e :: rest).dropWhile isBlank) then basicLines true text rest else none
  | c :: rest =>
    if c = '\n' then basicLines folding (if folding then text else '\n' :: text) rest
    else if folding ∧ isBlank c then basicLines true text rest
    else if isPlain c ∧ c ≠ '\\' then basicLines false (c :: text) rest
    else none

/-- The rest of a literal string of several lines. -/
def literalLines (text : List Char) : List Char → Option (String × List Char)
  | [] => none
  | '\'' :: '\'' :: '\'' :: '\'' :: '\'' :: rest =>
    some (String.ofList ('\'' :: '\'' :: text).reverse, rest)
  | '\'' :: '\'' :: '\'' :: '\'' :: rest => some (String.ofList ('\'' :: text).reverse, rest)
  | '\'' :: '\'' :: '\'' :: rest => some (String.ofList text.reverse, rest)
  | '\r' :: '\n' :: rest => literalLines ('\n' :: text) rest
  | c :: rest => if c = '\n' ∨ isPlain c then literalLines (c :: text) rest else none

/-- A line's end right after the quotes that open a string of several lines is not part of it. -/
def skipFirstLineEnd : List Char → List Char
  | '\n' :: rest => rest
  | '\r' :: '\n' :: rest => rest
  | cs => cs

/-- A string of any form. -/
def text? : List Char → Option (String × List Char)
  | '"' :: '"' :: '"' :: rest => basicLines false [] (skipFirstLineEnd rest)
  | '\'' :: '\'' :: '\'' :: rest => literalLines [] (skipFirstLineEnd rest)
  | '"' :: rest => basic [] rest
  | '\'' :: rest => literal [] rest
  | _ => none

/-! ## 3. Numbers -/

/-- Digits, where one underscore may stand between two of them; what is read is in reverse. -/
def digitRun (isDigit : Char → Bool) (read : List Char) : List Char → Option (List Char × List Char)
  | [] => some (read.reverse, [])
  | ['_'] => none
  | '_' :: c :: rest => if isDigit c then digitRun isDigit (c :: read) rest else none
  | c :: rest =>
    if isDigit c then digitRun isDigit (c :: read) rest else some (read.reverse, c :: rest)

/-- Digits, at least one. -/
def digits? (isDigit : Char → Bool) : List Char → Option (List Char × List Char)
  | [] => none
  | c :: rest => if isDigit c then digitRun isDigit [c] rest else none

/-- The whole digits of a decimal number: no zero before other digits. -/
def wholeDigits? : List Char → Option (List Char × List Char)
  | '0' :: rest => some (['0'], rest)
  | cs => digits? Char.isDigit cs

/-- The number that digits of a base spell. -/
def natOf (base : Nat) (digits : List Char) : Nat :=
  digits.foldl (fun n c => n * base + (hexDigit? c).getD 0) 0

/-- An integer, when it fits sixty-four bits with a sign. -/
def integer? (negative : Bool) (magnitude : Nat) : Option Document :=
  if magnitude < 0x8000000000000000 ∨ (negative ∧ magnitude = 0x8000000000000000) then
    some (.int (if negative then -(magnitude : Int) else magnitude))
  else none

/-- A float from its digits; one above the largest finite number is refused. -/
def float? (negative : Bool) (whole fraction : List Char) (power : Int) : Option Document :=
  let x := Double.ofDecimal negative (natOf 10 (whole ++ fraction)) (power - fraction.length)
  if x.isInfinite ∧ !negative then none else some (.float x)

/-- An optional sign; true is minus. -/
def sign? : List Char → Bool × List Char
  | '+' :: rest => (false, rest)
  | '-' :: rest => (true, rest)
  | cs => (false, cs)

/-- The exponent after its letter. -/
def exponent? (cs : List Char) : Option (Int × List Char) := do
  let (negative, rest) := sign? cs
  let (digits, rest) ← digits? Char.isDigit rest
  let value : Int := natOf 10 digits
  return (if negative then -value else value, rest)

/-- Whether a character introduces an exponent. -/
def isExponentMark (c : Char) : Bool := c = 'e' || c = 'E'

/-- A decimal number after its sign. -/
def decimal? (negative : Bool) (cs : List Char) : Option (Document × List Char) := do
  let (whole, rest) ← wholeDigits? cs
  match rest with
  | '.' :: rest =>
    let (fraction, rest) ← digits? Char.isDigit rest
    match rest with
    | mark :: after =>
      if isExponentMark mark then
        let (power, rest) ← exponent? after
        return (← float? negative whole fraction power, rest)
      else return (← float? negative whole fraction 0, rest)
    | [] => return (← float? negative whole fraction 0, [])
  | mark :: after =>
    if isExponentMark mark then
      let (power, rest) ← exponent? after
      return (← float? negative whole [] power, rest)
    else return (← integer? negative (natOf 10 whole), rest)
  | [] => return (← integer? negative (natOf 10 whole), [])

/-- A number of another base after its mark. -/
def based? (base : Nat) (isDigit : Char → Bool) (cs : List Char) :
    Option (Document × List Char) := do
  let (digits, rest) ← digits? isDigit cs
  return (← integer? false (natOf base digits), rest)

/-- A number of any form. -/
def number? (cs : List Char) : Option (Document × List Char) :=
  match cs with
  | '0' :: 'x' :: rest => based? 16 (fun c => (hexDigit? c).isSome) rest
  | '0' :: 'o' :: rest => based? 8 (fun c => '0' ≤ c && c ≤ '7') rest
  | '0' :: 'b' :: rest => based? 2 (fun c => c = '0' || c = '1') rest
  | _ =>
    let (negative, rest) := sign? cs
    match rest with
    | 'i' :: 'n' :: 'f' :: rest => some (.float (Double.infinity negative), rest)
    | 'n' :: 'a' :: 'n' :: rest => some (.float Double.nan, rest)
    | _ => decimal? negative rest

/-! ## 4. Dates and times -/

/-- The member name of a date or a time. -/
def dateKey : String := "$__toml_private_datetime"

/-- Exactly `count` digits, and the number they spell. -/
def fixedDigits? (count : Nat) (cs : List Char) : Option (Nat × List Char) :=
  let digits := cs.take count
  if digits.length = count ∧ digits.all Char.isDigit then some (natOf 10 digits, cs.drop count)
  else none

/-- A number of exactly `count` digits within bounds. -/
def field? (count low high : Nat) (cs : List Char) : Option (Nat × List Char) := do
  let (value, rest) ← fixedDigits? count cs
  if low ≤ value ∧ value ≤ high then some (value, rest) else none

/-- Takes one given character. -/
def mark? (mark : Char) : List Char → Option (List Char)
  | [] => none
  | c :: rest => if c = mark then some rest else none

/-- How many days a month has. -/
def daysIn (year month : Nat) : Nat :=
  if month = 2 then
    if year % 4 = 0 ∧ (year % 100 ≠ 0 ∨ year % 400 = 0) then 29 else 28
  else if month = 4 ∨ month = 6 ∨ month = 9 ∨ month = 11 then 30
  else 31

/-- A number with zeros in front, up to a width. -/
def padded (width n : Nat) : String :=
  let digits := toString n
  zeros (width - digits.length) ++ digits

/-- A date, in its fixed spelling. -/
def date? (cs : List Char) : Option (String × List Char) := do
  let (year, rest) ← fixedDigits? 4 cs
  let rest ← mark? '-' rest
  let (month, rest) ← field? 2 1 12 rest
  let rest ← mark? '-' rest
  let (day, rest) ← field? 2 1 31 rest
  if day ≤ daysIn year month then
    some (padded 4 year ++ "-" ++ padded 2 month ++ "-" ++ padded 2 day, rest)
  else none

/-- The digits of a fraction of a second: nine at most, no zeros at the end. -/
def fractionText (digits : List Char) : String :=
  let kept := ((digits.take 9).reverse.dropWhile (· = '0')).reverse
  if kept.isEmpty then "" else "." ++ String.ofList kept

/-- A time of day, in its fixed spelling. -/
def time? (cs : List Char) : Option (String × List Char) := do
  let (hour, rest) ← field? 2 0 23 cs
  let rest ← mark? ':' rest
  let (minute, rest) ← field? 2 0 59 rest
  let rest ← mark? ':' rest
  let (second, rest) ← field? 2 0 60 rest
  let text := padded 2 hour ++ ":" ++ padded 2 minute ++ ":" ++ padded 2 second
  match rest with
  | '.' :: rest =>
    let digits := rest.takeWhile Char.isDigit
    if digits.isEmpty then none
    else some (text ++ fractionText digits, rest.drop digits.length)
  | _ => some (text, rest)

/-- The distance from universal time, in its fixed spelling; none is written as the empty text. -/
def offset? (cs : List Char) : Option (String × List Char) :=
  match cs with
  | 'Z' :: rest | 'z' :: rest => some ("Z", rest)
  | '+' :: rest => hours "+" rest
  | '-' :: rest => hours "-" rest
  | _ => some ("", cs)
where
  hours (sign : String) (cs : List Char) : Option (String × List Char) := do
    let (hour, rest) ← field? 2 0 23 cs
    let rest ← mark? ':' rest
    let (minute, rest) ← field? 2 0 59 rest
    let sign := if hour = 0 ∧ minute = 0 then "+" else sign
    return (sign ++ padded 2 hour ++ ":" ++ padded 2 minute, rest)

/-- A date, a time, or both. -/
def dateTime? (cs : List Char) : Option (String × List Char) :=
  match date? cs with
  | none => time? cs
  | some (date, rest) =>
    match rest with
    | c :: after =>
      if c = 'T' ∨ c = 't' ∨ c = ' ' then
        match time? after with
        | none => some (date, rest)
        | some (time, rest) =>
          (offset? rest).map fun (offset, rest) => (date ++ "T" ++ time ++ offset, rest)
      else some (date, rest)
    | [] => some (date, [])

/-! ## 5. Scalars -/

/-- A scalar of any kind. -/
def scalar? (cs : List Char) : Option (Document × List Char) :=
  match cs with
  | '"' :: _ | '\'' :: _ => (text? cs).map fun (text, rest) => (.text text, rest)
  | 't' :: 'r' :: 'u' :: 'e' :: rest => some (.bool true, rest)
  | 'f' :: 'a' :: 'l' :: 's' :: 'e' :: rest => some (.bool false, rest)
  | _ =>
    match dateTime? cs with
    | some (text, rest) => some (.object [(dateKey, .text text)], rest)
    | none => number? cs

end Toml

end ShaderFabric
