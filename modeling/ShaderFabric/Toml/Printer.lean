/-
# Writing TOML strings and keys

A string is written in the plainest form that holds it: between double quotes if nothing needs an
escape, else literally between single quotes, else over several lines in the same two ways, and
with escapes as the last resort.
-/
import ShaderFabric.Document

namespace ShaderFabric

namespace Toml

/-! ## 1. What a text holds -/

/-- The longest run of a character; `run` is the length of the run that ends here. -/
def longestRun (mark : Char) (run best : Nat) : List Char → Nat
  | [] => max run best
  | c :: rest =>
    if c = mark then longestRun mark (run + 1) best rest
    else longestRun mark 0 (max run best) rest

/-- A control character that only an escape can write. -/
def needsEscape (c : Char) : Bool := (c.toNat < 0x20 && c ≠ '\t' && c ≠ '\n') || c.toNat = 0x7f

/-- A hexadecimal digit in upper case. -/
def upperHex (n : Nat) : Char := if n < 10 then Char.ofNat (48 + n) else Char.ofNat (55 + n)

/-- A character between double quotes, the quote itself apart. -/
def escapedChar (lines : Bool) (c : Char) : List Char :=
  match c with
  | '\x08' => ['\\', 'b']
  | '\t' => ['\\', 't']
  | '\n' => if lines then ['\n'] else ['\\', 'n']
  | '\x0c' => ['\\', 'f']
  | '\r' => ['\\', 'r']
  | '\\' => ['\\', '\\']
  | c =>
    if c.toNat < 0x20 ∨ c.toNat = 0x7f then
      ['\\', 'u', '0', '0', upperHex (c.toNat / 16), upperHex (c.toNat % 16)]
    else [c]

/-- Characters between double quotes.  Up to `free` quotes in a row stand for themselves; `run` is
how many have been seen. -/
def escapedChars (lines : Bool) (free run : Nat) : List Char → List Char
  | [] => []
  | c :: rest =>
    if c = '"' then
      if run < free then c :: escapedChars lines free (run + 1) rest
      else '\\' :: c :: escapedChars lines free 0 rest
    else escapedChar lines c ++ escapedChars lines free 0 rest

/-! ## 2. Strings and keys -/

/-- A string with its quotes. -/
def quote (text : String) : String :=
  let cs := text.toList
  let singles := longestRun '\'' 0 0 cs
  let doubles := longestRun '"' 0 0 cs
  let codes := cs.any needsEscape
  let escape := cs.any (· = '\\')
  let lines := cs.any (· = '\n')
  let start := if lines then "\n" else ""
  if !codes && !escape && doubles = 0 && !lines then
    "\"" ++ String.ofList (escapedChars false 0 0 cs) ++ "\""
  else if !codes && singles = 0 && !lines then "'" ++ text ++ "'"
  else if !codes && !escape && doubles ≤ 2 then
    "\"\"\"" ++ start ++ String.ofList (escapedChars true 2 0 cs) ++ "\"\"\""
  else if !codes && singles ≤ 2 then "'''" ++ start ++ text ++ "'''"
  else if lines then "\"\"\"" ++ start ++ String.ofList (escapedChars true 2 0 cs) ++ "\"\"\""
  else "\"" ++ String.ofList (escapedChars false 0 0 cs) ++ "\""

/-- A key: bare if it can be. -/
def keyText (text : String) : String :=
  let cs := text.toList
  let codes := cs.any fun c => needsEscape c || c = '\n'
  if !cs.isEmpty && cs.all fun c => c.isAlphanum || c = '-' || c = '_' then text
  else if !codes && cs.all fun c => c ≠ '\\' && c ≠ '"' then
    "\"" ++ String.ofList (escapedChars false 0 0 cs) ++ "\""
  else if !codes && cs.all (· ≠ '\'') then "'" ++ text ++ "'"
  else "\"" ++ String.ofList (escapedChars false 0 0 cs) ++ "\""

end Toml

end ShaderFabric
