/-
# Words of shader text

The words of a text with their places, counted in bytes, and with the mark of a member access: a
word right after a period.  A reference to a name is a word that is no member, unless members are
asked for.

Component `fabric`: `identifiers`, `count_references`, `rewrite`, `member_accesses`.
-/
import ShaderFabric.Table
import ShaderFabric.Text.Blank
import ShaderFabric.Text.Lexeme

namespace ShaderFabric

/-- A word and its place. -/
structure Word where
  text : String
  start : Nat
  stop : Nat
  /-- The character right before the word is a period. -/
  afterPeriod : Bool
  deriving Repr, DecidableEq

/-! ## 1. Words -/

/-- The words of the lexemes from an offset on. -/
def wordsFrom (offset : Nat) (afterPeriod : Bool) : List Lexeme → List Word
  | [] => []
  | lexeme :: rest =>
    let stop := offset + lexeme.byteSize
    match lexeme with
    | .word text => ⟨String.ofList text, offset, stop, afterPeriod⟩ :: wordsFrom stop false rest
    | .mark c => wordsFrom stop (c = '.') rest
    | _ => wordsFrom stop false rest

/-- The words of a text. -/
def words (source : String) : List Word := wordsFrom 0 false (lexemes source.toList)

/-- Whether a word refers to a name; `members` admits words after a period. -/
def Word.refersTo (word : Word) (name : String) (members : Bool) : Bool :=
  word.text = name && (members || !word.afterPeriod)

/-- How many words refer to a name. -/
def countReferences (source name : String) (members : Bool) : Nat :=
  (words source).countP fun word => word.refersTo name members

/-- Whether some word refers to a name. -/
def mentions (source name : String) (members : Bool) : Bool :=
  0 < countReferences source name members

/-- The member accesses among words: two words with one period between them, the first no member
itself. -/
def accessesOf : List Word → List (String × String)
  | base :: member :: rest =>
    let more := accessesOf (member :: rest)
    if member.afterPeriod && member.start = base.stop + 1 && !base.afterPeriod then
      (base.text, member.text) :: more
    else more
  | _ => []

/-- The member accesses of a text. -/
def memberAccesses (source : String) : List (String × String) := accessesOf (words source)

/-! ## 2. Substitution -/

/-- What stands in place of a word. -/
structure Replacement where
  text : String
  /-- Whether words after a period are replaced too. -/
  members : Bool
  deriving Repr, DecidableEq

/-- What a lexeme is written as. -/
def substituteLexeme (replacements : Table Replacement) (afterPeriod : Bool) (lexeme : Lexeme) :
    List Char :=
  match lexeme with
  | .word text =>
    match replacements.find? (String.ofList text) with
    | some replacement =>
      if afterPeriod && !replacement.members then text else replacement.text.toList
    | none => text
  | other => other.text

/-- Substitutes in lexemes in one pass; what has been put in is not looked at again. -/
def substituteFrom (replacements : Table Replacement) (afterPeriod : Bool) : List Lexeme → List Char
  | [] => []
  | lexeme :: rest =>
    substituteLexeme replacements afterPeriod lexeme
      ++ substituteFrom replacements (lexeme = .mark '.') rest

/-- Replaces the words of a text. -/
def substitute (replacements : Table Replacement) (source : String) : String :=
  String.ofList (substituteFrom replacements false (lexemes source.toList))

end ShaderFabric
