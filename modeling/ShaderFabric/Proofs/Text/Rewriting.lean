/-
# What substitution does to the words and bytes of a text

A text after substitution is cut again by whoever reads it.  Its words are those of the text, each
word that is replaced by those of its replacement, and its bytes are those of the text outside the
words that are replaced.  Neither needs to know how the text is cut otherwise: comments, numbers and
characters beyond ASCII stay as they are.

* `mentions_substitute` -- the words, each with the mark of a member access;
* `utf8_substitute` -- the bytes, as an edit of the places of the replaced words;
* `placed_words` -- these places are in order, and each holds its word;
* `words_and_bytes_substitute` -- all of these, for identifiers and calls.
-/
import ShaderFabric.Proofs.Table
import ShaderFabric.Proofs.Text.Substitution

namespace ShaderFabric

/-! ## 1. Words without places -/

/-- A word and its mark, wherever it stands. -/
def Word.mention (word : Word) : String × Bool := (word.text, word.afterPeriod)

/-- The words of lexemes with their marks. -/
def mentionsIn : Bool → List Lexeme → List (String × Bool)
  | _, [] => []
  | afterPeriod, lexeme :: rest =>
    ((lexeme.word? 0 afterPeriod).map Word.mention).toList ++ mentionsIn lexeme.isPeriod rest

theorem map_mention_wordsFrom : ∀ (ls : List Lexeme) (offset : Nat) (afterPeriod : Bool),
    (wordsFrom offset afterPeriod ls).map Word.mention = mentionsIn afterPeriod ls
  | [], _, _ => rfl
  | lexeme :: rest, offset, afterPeriod => by
    rw [wordsFrom_cons, List.map_append, map_mention_wordsFrom rest, mentionsIn]
    congr 1
    cases lexeme <;> rfl

theorem mentionsIn_append : ∀ (ls ms : List Lexeme) (afterPeriod : Bool),
    mentionsIn afterPeriod (ls ++ ms) =
      mentionsIn afterPeriod ls ++ mentionsIn (periodAfter afterPeriod ls) ms
  | [], _, _ => rfl
  | lexeme :: rest, ms, afterPeriod => by
    rw [List.cons_append, mentionsIn, mentionsIn, mentionsIn_append rest ms, List.append_assoc]
    rfl

/-! ## 2. What a word becomes -/

/-- What a word is replaced by, if it is. -/
def Word.replacement? (replaced : Table Replacement) (word : Word) : Option Replacement :=
  (replaced.find? word.text).filter fun put => !word.afterPeriod || put.members

/-- What stands in place of a word: the word, or the words of its replacement, of which the first
one has the mark of the word. -/
def Word.images (replaced : Table Replacement) (word : Word) : List (String × Bool) :=
  match word.replacement? replaced with
  | none => [word.mention]
  | some put =>
    match (words put.text).map Word.mention with
    | [] => []
    | (first, _) :: rest => (first, word.afterPeriod) :: rest

/-- The words that are replaced, each with its replacement. -/
def replacedWords (replaced : Table Replacement) (found : List Word) : List (Word × Replacement) :=
  found.filterMap fun word => (word.replacement? replaced).map fun put => (word, put)

section Mentions

variable {replaced : Table Replacement}
  (hreplaced : ∀ name put, replaced.find? name = some put → put.IsReference)

include hreplaced

/-- The words that come from one lexeme. -/
theorem mentionsIn_substituted (lexeme : Lexeme) (offset : Nat) (afterPeriod : Bool) :
    mentionsIn afterPeriod (substituted replaced afterPeriod lexeme) =
      (lexeme.word? offset afterPeriod).toList.flatMap (Word.images replaced) := by
  unfold substituted
  cases lexeme with
  | word text =>
    -- The word at its place is replaced by what the lexeme is.
    have hsame : Word.replacement? replaced ⟨String.ofList text, offset,
        offset + (Lexeme.word text).byteSize, afterPeriod⟩ =
          insertion replaced afterPeriod (.word text) := rfl
    simp only [Lexeme.word?, Option.toList_some, List.flatMap_singleton, Word.images, hsame]
    cases hput : insertion replaced afterPeriod (.word text) with
    | none => rfl
    | some put =>
      obtain ⟨name, rest, hcut, -⟩ :=
        lexemes_of_isReference (isReference_of_insertion hreplaced hput)
      simp only [words, map_mention_wordsFrom, hcut]
      rfl
  | _ => rfl

theorem mentionsIn_substitutedFrom : ∀ (ls : List Lexeme) (offset : Nat) (afterPeriod : Bool),
    mentionsIn afterPeriod (substitutedFrom replaced afterPeriod ls) =
      (wordsFrom offset afterPeriod ls).flatMap (Word.images replaced)
  | [], _, _ => rfl
  | lexeme :: rest, offset, afterPeriod => by
    rw [substitutedFrom, mentionsIn_append, periodAfter_substituted hreplaced, wordsFrom_cons,
      List.flatMap_append, mentionsIn_substituted hreplaced lexeme offset,
      mentionsIn_substitutedFrom rest (offset + lexeme.byteSize)]
    rfl

/-- **The words after substitution** are those of the text, each in its own image. -/
theorem mentions_substitute (source : String) :
    (words (substitute replaced source)).map Word.mention =
      (words source).flatMap (Word.images replaced) := by
  rw [words, map_mention_wordsFrom, lexemes_substitute hreplaced]
  exact mentionsIn_substitutedFrom hreplaced _ 0 false

end Mentions

/-! ## 3. Bytes -/

/-- The bytes in which a text is stored. -/
def utf8 (text : String) : List UInt8 := text.toUTF8.data.toList

/-- The bytes of characters. -/
def charBytes (cs : List Char) : List UInt8 := cs.flatMap String.utf8EncodeChar

theorem utf8_eq (text : String) : utf8 text = charBytes text.toList := by
  rw [utf8, String.toUTF8_eq_toByteArray, ← String.utf8Encode_toList, List.utf8Encode,
    List.toList_data_toByteArray]
  rfl

@[simp] theorem utf8_ofList (cs : List Char) : utf8 (String.ofList cs) = charBytes cs := by
  rw [utf8_eq, String.toList_ofList]

@[simp] theorem charBytes_append (cs ds : List Char) :
    charBytes (cs ++ ds) = charBytes cs ++ charBytes ds :=
  List.flatMap_append

/-- The size of a lexeme counts its bytes. -/
theorem byteSize_eq (lexeme : Lexeme) : lexeme.byteSize = (charBytes lexeme.text).length := by
  unfold Lexeme.byteSize charBytes
  induction lexeme.text with
  | nil => rfl
  | cons c rest ih => simp [ih, String.length_utf8EncodeChar]

/-- The bytes from a cursor on, with other texts in place of some words. -/
def splice (bytes : List UInt8) : Nat → List (Word × Replacement) → List UInt8
  | cursor, [] => bytes.drop cursor
  | cursor, (word, put) :: rest =>
    bytes.extract cursor word.start ++ utf8 put.text ++ splice bytes word.stop rest

/-- **Words at their places** in bytes, one after the other from a cursor on. -/
def Placed (bytes : List UInt8) : Nat → List Word → Prop
  | cursor, [] => cursor ≤ bytes.length
  | cursor, word :: rest =>
    cursor ≤ word.start ∧ word.start < word.stop ∧
      bytes.extract word.start word.stop = utf8 word.text ∧ Placed bytes word.stop rest

theorem extract_append (before after : List UInt8) {cursor : Nat} (h : cursor ≤ before.length) :
    (before ++ after).extract cursor before.length = before.drop cursor := by
  rw [List.extract_eq_take_drop, List.drop_append_of_le_length h, List.take_left']
  exact List.length_drop

section Places

variable {replaced : Table Replacement}

/-- A lexeme that is no replaced word is passed over. -/
theorem replacedWords_of_kept {lexeme : Lexeme} {afterPeriod : Bool}
    (h : insertion replaced afterPeriod lexeme = none) (offset : Nat) (rest : List Lexeme) :
    replacedWords replaced (wordsFrom offset afterPeriod (lexeme :: rest)) =
      replacedWords replaced (wordsFrom (offset + lexeme.byteSize) lexeme.isPeriod rest) := by
  rw [wordsFrom_cons]
  cases lexeme with
  | word text =>
    refine List.filterMap_cons_none ?_
    rw [Option.map_eq_none_iff]
    exact h
  | _ => rfl

/-- A replaced word stands where its lexeme does. -/
theorem replacedWords_of_put {lexeme : Lexeme} {afterPeriod : Bool} {put : Replacement}
    (h : insertion replaced afterPeriod lexeme = some put) (offset : Nat) (rest : List Lexeme) :
    ∃ word, word.start = offset ∧ word.stop = offset + lexeme.byteSize ∧
      replacedWords replaced (wordsFrom offset afterPeriod (lexeme :: rest)) =
        (word, put) ::
          replacedWords replaced (wordsFrom (offset + lexeme.byteSize) lexeme.isPeriod rest) := by
  rw [wordsFrom_cons]
  cases lexeme with
  | word text =>
    refine ⟨⟨String.ofList text, offset, offset + (Lexeme.word text).byteSize, afterPeriod⟩, rfl,
      rfl, List.filterMap_cons_some ?_⟩
    rw [Option.map_eq_some_iff]
    exact ⟨put, h, rfl⟩
  | _ => cases h

/-- Along the lexemes: what stands before them is copied from the cursor on, and they are written
after substitution.  The cursor is where the last replaced word ended. -/
theorem splice_wordsFrom : ∀ (ls : List Lexeme) (before : List UInt8) (afterPeriod : Bool)
    (cursor : Nat), cursor ≤ before.length →
      splice (before ++ charBytes (ls.flatMap Lexeme.text)) cursor
          (replacedWords replaced (wordsFrom before.length afterPeriod ls)) =
        before.drop cursor ++ charBytes (substituteFrom replaced afterPeriod ls)
  | [], before, _, cursor, _ => by
    simp [wordsFrom, replacedWords, splice, substituteFrom, charBytes]
  | lexeme :: rest, before, afterPeriod, cursor, hcursor => by
    have hend : before.length + lexeme.byteSize = (before ++ charBytes lexeme.text).length := by
      rw [byteSize_eq, List.length_append]
    have later : ∀ cursor, cursor ≤ (before ++ charBytes lexeme.text).length →
        splice (before ++ charBytes lexeme.text ++ charBytes (rest.flatMap Lexeme.text)) cursor
            (replacedWords replaced
              (wordsFrom (before.length + lexeme.byteSize) lexeme.isPeriod rest)) =
          (before ++ charBytes lexeme.text).drop cursor ++
            charBytes (substituteFrom replaced lexeme.isPeriod rest) := by
      rw [hend]
      exact fun cursor => splice_wordsFrom rest _ _ cursor
    rw [List.flatMap_cons, charBytes_append, ← List.append_assoc, substituteFrom, charBytes_append,
      substituteLexeme_eq]
    cases hput : insertion replaced afterPeriod lexeme with
    | none =>
      have hkept := later cursor (by rw [List.length_append]; omega)
      rw [replacedWords_of_kept hput, hkept, List.drop_append_of_le_length hcursor,
        List.append_assoc]
      rfl
    | some put =>
      obtain ⟨word, hstart, hstop, hwords⟩ := replacedWords_of_put hput before.length rest
      have hcopied := extract_append before
        (charBytes lexeme.text ++ charBytes (rest.flatMap Lexeme.text)) hcursor
      rw [← List.append_assoc] at hcopied
      have hdone := later _ (Nat.le_refl _)
      rw [List.drop_length, List.nil_append, ← hend] at hdone
      rw [hwords, splice, hstart, hstop, hcopied, hdone, utf8_eq, List.append_assoc]
      rfl

/-- **The bytes after substitution** are those of the text, with the replacements in the places of
the words that are replaced. -/
theorem utf8_substitute (source : String) :
    utf8 (substitute replaced source) =
      splice (utf8 source) 0 (replacedWords replaced (words source)) := by
  have h := @splice_wordsFrom replaced (lexemes source.toList) [] false 0 (Nat.le_refl _)
  rw [flatMap_text_lexemes] at h
  rw [substitute, utf8_ofList, utf8_eq]
  exact h.symm

end Places

/-- Along the lexemes: each word stands where it was found. -/
theorem placed_wordsFrom : ∀ (ls : List Lexeme) (before : List UInt8) (afterPeriod : Bool)
    (cursor : Nat), (∀ lexeme ∈ ls, lexeme.Formed) → cursor ≤ before.length →
      Placed (before ++ charBytes (ls.flatMap Lexeme.text)) cursor
        (wordsFrom before.length afterPeriod ls)
  | [], before, _, cursor, _, hcursor => by
    simp only [wordsFrom, Placed, List.length_append]
    omega
  | lexeme :: rest, before, afterPeriod, cursor, hformed, hcursor => by
    have hend : before.length + lexeme.byteSize = (before ++ charBytes lexeme.text).length := by
      rw [byteSize_eq, List.length_append]
    have later : ∀ cursor, cursor ≤ (before ++ charBytes lexeme.text).length →
        Placed (before ++ charBytes lexeme.text ++ charBytes (rest.flatMap Lexeme.text)) cursor
          (wordsFrom (before.length + lexeme.byteSize) lexeme.isPeriod rest) := by
      rw [hend]
      exact fun cursor => placed_wordsFrom rest _ _ cursor
        fun l hl => hformed l (List.mem_cons_of_mem _ hl)
    rw [List.flatMap_cons, charBytes_append, ← List.append_assoc, wordsFrom_cons]
    cases lexeme with
    | word text =>
      obtain ⟨c, tail, rfl, -⟩ := hformed _ List.mem_cons_self
      have hsize : 0 < (Lexeme.word (c :: tail)).byteSize :=
        Nat.lt_of_lt_of_le c.utf8Size_pos (Nat.le_add_right _ _)
      refine ⟨hcursor, Nat.lt_add_of_pos_right hsize, ?_, later _ hend.le⟩
      have hword := extract_append (before ++ charBytes (c :: tail))
        (charBytes (rest.flatMap Lexeme.text))
        (List.length_append ▸ Nat.le_add_right before.length _)
      rw [List.drop_left] at hword
      dsimp only
      rw [utf8_ofList, hend]
      exact hword
    | _ => exact later cursor (by rw [List.length_append]; omega)

/-- **The words of a text** are found in order, each at its place. -/
theorem placed_words (source : String) : Placed (utf8 source) 0 (words source) := by
  have h := placed_wordsFrom (lexemes source.toList) [] false 0
    (fun _ hl => formed_of_mem_lexemes hl) (Nat.le_refl _)
  rwa [flatMap_text_lexemes, List.nil_append, ← utf8_eq] at h

/-! ## 4. Substitution keeps the rest of the text -/

/-- **Substitution respects the words of a text.**  Where every replacement is an identifier or the
call of one on another, the words after substitution are the images of the words before, in order;
the bytes are those of the text outside the words that are replaced; and these words stand in order,
each at its place. -/
theorem words_and_bytes_substitute {replaced : Table Replacement}
    (hreplaced : ∀ name put, replaced.find? name = some put → put.IsReference) (source : String) :
    (words (substitute replaced source)).map Word.mention =
        (words source).flatMap (Word.images replaced) ∧
      utf8 (substitute replaced source) =
        splice (utf8 source) 0 (replacedWords replaced (words source)) ∧
      Placed (utf8 source) 0 (words source) :=
  ⟨mentions_substitute hreplaced source, utf8_substitute source, placed_words source⟩

namespace Example

/-- Replacements of which one is the name of another, and one is for members too. -/
def chained : Table Replacement :=
  [("a", ⟨"b", false⟩), ("b", ⟨"scale(a)", false⟩), ("m", ⟨"rgb", true⟩)]

theorem chained_isReference : ∀ entry ∈ chained, entry.2.IsReference := by
  have hname : ∀ name ∈ ["b", "scale", "a", "rgb"], IsIdentifier name := by
    simp only [List.forall_mem_cons, List.not_mem_nil, false_implies, implies_true, and_true]
    refine ⟨⟨'b', [], rfl, by decide, ?_⟩, ⟨'s', "cale".toList, rfl, by decide, ?_⟩,
      ⟨'a', [], rfl, by decide, ?_⟩, ⟨'r', "gb".toList, rfl, by decide, ?_⟩⟩ <;>
      exact List.all_eq_true.mp (by decide)
  simp only [chained, List.forall_mem_cons, List.not_mem_nil, false_implies, implies_true, and_true]
  exact ⟨⟨"b", hname _ (by simp), .inl rfl⟩,
    ⟨"scale", hname _ (by simp), .inr ⟨"a", hname _ (by simp), rfl⟩⟩,
    ⟨"rgb", hname _ (by simp), .inl rfl⟩⟩

/-- A comment, a number, a member and a character beyond ASCII stay; what has been put in is not
replaced again. -/
theorem chained_words :
    (∀ name put, chained.find? name = some put → put.IsReference) ∧
      (words (substitute chained "é+a.m /* a */ - 2.a + b.a // b")).map Word.mention =
        [("b", false), ("rgb", true), ("scale", false), ("a", false), ("a", true)] ∧
      utf8 (substitute chained "é+a.m /* a */ - 2.a + b.a // b") =
        utf8 "é+b.rgb /* a */ - 2.a + scale(a).a // b" := by
  have hreplaced : ∀ name put, chained.find? name = some put → put.IsReference :=
    fun name put hput => chained_isReference _ (Table.mem_of_find?_eq_some hput)
  obtain ⟨hwords, hbytes, -⟩ :=
    words_and_bytes_substitute hreplaced "é+a.m /* a */ - 2.a + b.a // b"
  refine ⟨hreplaced, hwords.trans ?_, hbytes.trans ?_⟩ <;> decide +kernel

end Example

end ShaderFabric
