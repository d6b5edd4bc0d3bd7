/-
# Uniform declarations in shader text

`uniform [precision] <type> <name> ;` with blanks between the words.  A word `lowp`, `mediump` or
`highp` right after the keyword is always its precision.  A declaration is found from the lexemes
that follow its keyword, so what stands before has no say in it.

Component `fabric`: `uniform_declarations`, `remove_spans`.
-/
import ShaderFabric.Text.Word

namespace ShaderFabric

/-- A declaration of one uniform. -/
structure Declaration where
  typeName : String
  name : String
  /-- The bytes from the keyword up to and including the semicolon. -/
  start : Nat
  stop : Nat
  deriving Repr, DecidableEq

/-! ## 1. One declaration -/

/-- The next word if only ASCII blanks stand before it, with the bytes up to its end. -/
def nextWord (taken : Nat) : List Lexeme → Option (String × Nat × List Lexeme)
  | .word text :: rest =>
    some (String.ofList text, taken + (Lexeme.word text).byteSize, rest)
  | .mark c :: rest => if isAsciiBlank c then nextWord (taken + c.utf8Size) rest else none
  | _ => none

/-- The bytes up to the end of a semicolon with only blanks before it. -/
def nextSemicolon (taken : Nat) : List Lexeme → Option Nat
  | .mark c :: rest =>
    if isBlank c then nextSemicolon (taken + c.utf8Size) rest
    else if c = ';' then some (taken + 1)
    else none
  | _ => none

/-- The words that state a precision. -/
def precisions : List String := ["lowp", "mediump", "highp"]

/-- The words after the keyword and an optional precision, with the bytes up to its end. -/
def skipPrecision (taken : Nat) (rest : List Lexeme) : Nat × List Lexeme :=
  match nextWord taken rest with
  | some (word, taken', rest') => if word ∈ precisions then (taken', rest') else (taken, rest)
  | none => (taken, rest)

/-- The type, the name and the end of a declaration whose keyword ends at `taken`. -/
def declarationAfter (taken : Nat) (rest : List Lexeme) : Option (String × String × Nat) := do
  let (taken, rest) := skipPrecision taken rest
  let (typeName, taken, rest) ← nextWord taken rest
  let (name, taken, rest) ← nextWord taken rest
  let stop ← nextSemicolon taken rest
  return (typeName, name, stop)

/-! ## 2. All declarations -/

/-- The keyword. -/
def uniformWord : List Char := "uniform".toList

/-- The declarations among the lexemes from an offset on. -/
def declarationsFrom (offset : Nat) (afterPeriod : Bool) : List Lexeme → List Declaration
  | [] => []
  | lexeme :: rest =>
    let stop := offset + lexeme.byteSize
    let later := declarationsFrom stop (lexeme = .mark '.') rest
    if lexeme = .word uniformWord ∧ !afterPeriod then
      match declarationAfter stop rest with
      | some (typeName, name, last) => ⟨typeName, name, offset, last⟩ :: later
      | none => later
    else later

/-- The declarations of a text, in order. -/
def declarations (source : String) : List Declaration :=
  declarationsFrom 0 false (lexemes source.toList)

/-! ## 3. Removal -/

/-- The characters from an offset on that lie in none of the spans. -/
def removeFrom (spans : List (Nat × Nat)) (offset : Nat) : List Char → List Char
  | [] => []
  | c :: rest =>
    let later := removeFrom spans (offset + c.utf8Size) rest
    if spans.any fun span => span.1 ≤ offset && offset < span.2 then later else c :: later

/-- The text without the characters of the spans. -/
def removeSpans (spans : List (Nat × Nat)) (source : String) : String :=
  String.ofList (removeFrom spans 0 source.toList)

end ShaderFabric
