/-
# Lexemes of shader text

Shader text is cut into words, numbers, comments, and single characters that are none of these.
This is no grammar of the language: it is just enough to tell a reference from a comment, a literal
or a member access.

A lexeme is never empty (`text_cutLexeme_ne_nil`), which is why the cutting ends, and the lexemes of
a text, put together, are the text (`flatMap_text_lexemes`).

Component `fabric`: what the scanner `identifiers` passes over.
-/

namespace ShaderFabric

/-! ## 1. Lexemes -/

/-- A letter or an underscore. -/
def isWordStart (c : Char) : Bool := c.isAlpha || c = '_'

/-- A letter, a digit or an underscore. -/
def isWordChar (c : Char) : Bool := c.isAlphanum || c = '_'

/-- A character of a number after its first digit. -/
def isNumberChar (c : Char) : Bool := isWordChar c || c = '.'

/-- A piece of shader text. -/
inductive Lexeme
  | word (text : List Char)
  | number (text : List Char)
  /-- From two slashes to the end of the line, which is not part of it. -/
  | lineComment (text : List Char)
  | blockComment (text : List Char)
  /-- A block comment that is not closed. -/
  | openComment (text : List Char)
  | mark (c : Char)
  deriving Repr, DecidableEq

namespace Lexeme

/-- The characters of a lexeme. -/
def text : Lexeme → List Char
  | word text | number text | lineComment text | blockComment text | openComment text => text
  | mark c => [c]

/-- How many bytes a lexeme takes. -/
def byteSize (lexeme : Lexeme) : Nat := lexeme.text.foldr (fun c size => c.utf8Size + size) 0

end Lexeme

/-! ## 2. Cutting a text -/

/-- Cuts after the first `*/`. -/
def cutComment : List Char → Option (List Char × List Char)
  | [] => none
  | '*' :: '/' :: rest => some (['*', '/'], rest)
  | c :: rest => (cutComment rest).map fun (inner, rest) => (c :: inner, rest)

/-- The first lexeme of a text that starts with a character, and the rest of the text. -/
def cutLexeme (c : Char) (rest : List Char) : Lexeme × List Char :=
  if isWordStart c then (.word (c :: rest.takeWhile isWordChar), rest.dropWhile isWordChar)
  else if c.isDigit then
    (.number (c :: rest.takeWhile isNumberChar), rest.dropWhile isNumberChar)
  else if c = '/' then
    match rest with
    | '/' :: _ => (.lineComment (c :: rest.takeWhile (· ≠ '\n')), rest.dropWhile (· ≠ '\n'))
    | '*' :: inner =>
      match cutComment inner with
      | some (inner, rest) => (.blockComment (c :: '*' :: inner), rest)
      | none => (.openComment (c :: rest), [])
    | _ => (.mark c, rest)
  else (.mark c, rest)

theorem cutComment_eq {cs inner rest : List Char} (h : cutComment cs = some (inner, rest)) :
    inner ++ rest = cs := by
  fun_induction cutComment cs generalizing inner rest with
  | case1 => simp at h
  | case2 rest' =>
    simp only [Option.some.injEq, Prod.mk.injEq] at h
    obtain ⟨rfl, rfl⟩ := h
    rfl
  | case3 c rest' _ ih =>
    simp only [Option.map_eq_some_iff] at h
    obtain ⟨⟨i, r⟩, hc, h⟩ := h
    simp only [Prod.mk.injEq] at h
    obtain ⟨rfl, rfl⟩ := h
    simp [ih hc]

/-- A cut loses nothing. -/
theorem text_cutLexeme (c : Char) (rest : List Char) :
    (cutLexeme c rest).1.text ++ (cutLexeme c rest).2 = c :: rest := by
  unfold cutLexeme
  split
  · simp [Lexeme.text]
  · split
    · simp [Lexeme.text]
    · split
      · split
        · simp only [Lexeme.text, List.cons_append, List.takeWhile_append_dropWhile]
        · split
          · rename_i h
            simp [Lexeme.text, cutComment_eq h]
          · simp [Lexeme.text]
        · simp [Lexeme.text]
      · simp [Lexeme.text]

/-- A lexeme is never empty. -/
theorem text_cutLexeme_ne_nil (c : Char) (rest : List Char) : (cutLexeme c rest).1.text ≠ [] := by
  unfold cutLexeme
  split
  · simp [Lexeme.text]
  · split
    · simp [Lexeme.text]
    · split
      · split
        · simp [Lexeme.text]
        · split <;> simp [Lexeme.text]
        · simp [Lexeme.text]
      · simp [Lexeme.text]

theorem length_cutLexeme_lt (c : Char) (rest : List Char) :
    (cutLexeme c rest).2.length < (c :: rest).length := by
  have h := congrArg List.length (text_cutLexeme c rest)
  have := List.length_pos_iff.mpr (text_cutLexeme_ne_nil c rest)
  rw [List.length_append] at h
  omega

/-- The lexemes of a text. -/
def lexemes : List Char → List Lexeme
  | [] => []
  | c :: rest => (cutLexeme c rest).1 :: lexemes (cutLexeme c rest).2
termination_by cs => cs.length
decreasing_by exact length_cutLexeme_lt c rest

theorem flatMap_text_lexemes (cs : List Char) : (lexemes cs).flatMap Lexeme.text = cs := by
  fun_induction lexemes cs with
  | case1 => rfl
  | case2 c rest ih => rw [List.flatMap_cons, ih, text_cutLexeme]

end ShaderFabric
