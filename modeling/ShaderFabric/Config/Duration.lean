/-
# Durations

A span of time in seconds and nanoseconds.  Its text is a list of numbers with units, such as
`1h 30m`; blanks may stand anywhere but inside a unit.  A number may have a fraction, which must be
a whole number of nanoseconds, or of seconds when the unit is an hour or more.

A text is read one character at a time by `Scan.step`, so what a prefix of a text means is the
state after it.

Component `loomconfig`: `serialize_duration`, `deserialize_duration`.
-/
import ShaderFabric.Number.Double
import ShaderFabric.Text.Blank

namespace ShaderFabric

/-- A span of time. -/
structure Duration where
  seconds : Nat
  nanos : Nat
  deriving Repr, DecidableEq

/-- Why there is no such duration. -/
inductive DurationFault
  | invalid
  /-- The span does not fit sixty-four bits of seconds. -/
  | tooLong
  deriving Repr, DecidableEq

namespace Duration

/-- The first number of seconds that does not fit. -/
def limit : Nat := 0x10000000000000000

/-- The nanoseconds of a second. -/
def second : Nat := 1000000000

def ofSeconds (seconds : Nat) : Duration := ⟨seconds, 0⟩

def isZero (d : Duration) : Bool := d.seconds = 0 && d.nanos = 0

/-- A finite number of seconds that is not negative, to the nearest nanosecond. -/
def ofDouble (x : Double) : Except DurationFault Duration :=
  let (m, q) := Format.double.decode x.word
  let (num, den) := scaleBy 2 q m 1
  let nanos := roundHalfEven (num * second) den
  if nanos / second < limit then .ok ⟨nanos / second, nanos % second⟩ else .error .tooLong

/-! ## 1. Units -/

/-- A unit of time. -/
inductive Unit
  | nanosecond
  | microsecond
  | millisecond
  | second
  | minute
  | hour
  | day
  | week
  | month
  | year
  deriving Repr, DecidableEq

namespace Unit

/-- The spellings of a unit. -/
def spellings : Unit → List String
  | nanosecond => ["nanos", "nsec", "ns"]
  | microsecond => ["usec", "us", "µs"]
  | millisecond => ["millis", "msec", "ms"]
  | second => ["seconds", "second", "secs", "sec", "s"]
  | minute => ["minutes", "minute", "min", "mins", "m"]
  | hour => ["hours", "hour", "hrs", "hr", "h"]
  | day => ["days", "day", "d"]
  | week => ["weeks", "week", "wk", "wks", "w"]
  | month => ["months", "month", "M"]
  | year => ["years", "year", "yr", "yrs", "y"]

def all : List Unit :=
  [nanosecond, microsecond, millisecond, second, minute, hour, day, week, month, year]

/-- The unit of a spelling. -/
def ofText? (text : String) : Option Unit := all.find? fun unit => text ∈ unit.spellings

/-- A whole number of the unit, in seconds and nanoseconds. -/
def whole (unit : Unit) (n : Nat) : Nat × Nat :=
  match unit with
  | nanosecond => (0, n)
  | microsecond => (0, n * 1000)
  | millisecond => (0, n * 1000000)
  | second => (n, 0)
  | minute => (n * 60, 0)
  | hour => (n * 3600, 0)
  | day => (n * 86400, 0)
  | week => (n * 604800, 0)
  | month => (n * 2630016, 0)
  | year => (n * 31557600, 0)

/-- How finely a fraction of the unit counts: the parts of one unit, and whether the parts are
nanoseconds.  There is nothing below a nanosecond. -/
def parts? : Unit → Option (Nat × Bool)
  | nanosecond => none
  | microsecond => some (1000, true)
  | millisecond => some (1000000, true)
  | second => some (1000000000, true)
  | minute => some (60000000000, true)
  | hour => some (3600, false)
  | day => some (86400, false)
  | week => some (604800, false)
  | month => some (2630016, false)
  | year => some (31557600, false)

end Unit

/-! ## 2. Sums -/

/-- A number that fits sixty-four bits. -/
def fit (n : Nat) : Except DurationFault Nat := if n < limit then .ok n else .error .invalid

/-- Adds seconds and nanoseconds, each step within sixty-four bits. -/
def add (d : Duration) (seconds nanos : Nat) : Except DurationFault Duration := do
  let seconds ← fit seconds
  let nanos ← fit (d.nanos + (← fit nanos))
  let carried ← if second < nanos then fit (seconds + nanos / second) else pure seconds
  let nanos := if second < nanos then nanos % second else nanos
  let total ← fit (d.seconds + carried)
  if nanos = second then
    if total + 1 < limit then pure ⟨total + 1, 0⟩ else throw .tooLong
  else pure ⟨total, nanos⟩

/-- A decimal fraction. -/
structure Fraction where
  numerator : Nat
  denominator : Nat

/-- Adds a number of units, given by the spelling of the unit.  A fraction that is no whole number of
the parts of its unit is refused. -/
def addUnits (d : Duration) (n : Nat) (fraction : Option Fraction) (unit : String) :
    Except DurationFault Duration := do
  let some unit := Unit.ofText? unit | throw .invalid
  let (seconds, nanos) := unit.whole n
  let d ← d.add seconds nanos
  match fraction with
  | none => pure d
  | some fraction =>
    let some (count, small) := unit.parts? | throw .invalid
    let product ← fit (fraction.numerator * count)
    if product % fraction.denominator ≠ 0 then throw .invalid
    let parts := product / fraction.denominator
    if small then d.add 0 parts else d.add parts 0

/-! ## 3. Reading -/

/-- Where the reading stands; letters of a unit are newest first. -/
inductive Scan
  | seek (total : Duration) (started : Bool)
  | number (total : Duration) (n : Nat)
  | fraction (total : Duration) (n : Nat) (read : Fraction)
  | unit (total : Duration) (n : Nat) (fraction : Option Fraction) (letters : List Char)

/-- A letter of a unit. -/
def isUnitLetter (c : Char) : Bool := c.isAlpha || c = 'µ'

def digit (c : Char) : Nat := c.toNat - '0'.toNat

namespace Scan

/-- One more character. -/
def step (state : Scan) (c : Char) : Except DurationFault Scan :=
  match state with
  | seek total started =>
    if c.isDigit then .ok (number total (digit c))
    else if isBlank c then .ok (seek total started)
    else .error .invalid
  | number total n =>
    if c.isDigit then do return number total (← fit (n * 10 + digit c))
    else if isBlank c then .ok (number total n)
    else if isUnitLetter c then .ok (unit total n none [c])
    else if c = '.' then .ok (fraction total n ⟨0, 1⟩)
    else .error .invalid
  | fraction total n read =>
    if c.isDigit then do
      let denominator ← fit (read.denominator * 10)
      let numerator ← fit (read.numerator * 10 + digit c)
      return fraction total n ⟨numerator, denominator⟩
    else if isBlank c then .ok (fraction total n read)
    else if isUnitLetter c ∧ read.denominator ≠ 1 then .ok (unit total n (some read) [c])
    else .error .invalid
  | unit total n read letters =>
    if isUnitLetter c then .ok (unit total n read (c :: letters))
    else if c.isDigit then do
      return number (← total.addUnits n read (String.ofList letters.reverse)) (digit c)
    else if isBlank c then do
      return seek (← total.addUnits n read (String.ofList letters.reverse)) true
    else .error .invalid

/-- The end of the text. -/
def finish : Scan → Except DurationFault Duration
  | seek total true => .ok total
  | unit total n read letters => total.addUnits n read (String.ofList letters.reverse)
  | _ => .error .invalid

end Scan

/-- Reads a duration; zero needs no unit. -/
def ofText (text : String) : Except DurationFault Duration :=
  if text = "0" then .ok ⟨0, 0⟩
  else do (← text.toList.foldlM Scan.step (Scan.seek ⟨0, 0⟩ false)).finish

/-! ## 4. Writing -/

/-- A number with a unit, left out when it is zero. -/
def item (unit : String) (n : Nat) : List String := if n = 0 then [] else [toString n ++ unit]

/-- A number with a unit that is spelled out. -/
def itemPlural (unit : String) (n : Nat) : List String :=
  item (if 1 < n then unit ++ "s" else unit) n

/-- A duration as text, from years down to nanoseconds. -/
def toText (d : Duration) : String :=
  if d.isZero then "0s" else
  let inYear := d.seconds % 31557600
  let inMonth := inYear % 2630016
  let inDay := inMonth % 86400
  " ".intercalate
    (itemPlural "year" (d.seconds / 31557600) ++ itemPlural "month" (inYear / 2630016)
      ++ itemPlural "day" (inMonth / 86400) ++ item "h" (inDay / 3600)
      ++ item "m" (inDay % 3600 / 60) ++ item "s" (inDay % 60)
      ++ item "ms" (d.nanos / 1000000) ++ item "us" (d.nanos / 1000 % 1000)
      ++ item "ns" (d.nanos % 1000))

end Duration

end ShaderFabric
