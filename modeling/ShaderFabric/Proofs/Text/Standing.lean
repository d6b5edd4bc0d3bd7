/-
# Where the words of a text stand

Of a lexeme a word is told by its characters alone, so the words of a text are known by what stands
around them: no word character before, none behind, and a period right before makes a member.  What
stands before a text moves the places of its words, and changes nothing else, as long as it ends in
a line end and closes its comments.

* `Lexeme.last_before_word` -- the character before a word;
* `mem_wordsFrom` -- each word stems from a lexeme, at the place of that lexeme;
* `stands_of_mem_words` -- a word is a maximal run of word characters (`Word.StandsIn`);
* `words_apart` -- the words of a text stand in order and do not touch;
* `words_line` -- the words of two texts with a line end between them.
-/
import ShaderFabric.Proofs.Text.Gap

namespace ShaderFabric

/-! ## 1. Before a word -/

/-- **The character before a word** is in no word, and only a lexeme of its own is a period. -/
theorem Lexeme.last_before_word {lexeme : Lexeme} (formed : lexeme.Formed) {c : Char}
    (hends : lexeme.EndsBefore (some c)) (hc : isWordStart c = true) :
    ∃ d, lexeme.text.getLast? = some d ∧ isWordChar d = false ∧
      (d = '.' ↔ lexeme.isPeriod = true) := by
  have hchar : isWordChar c = true := isWordChar_of_isWordStart hc
  cases lexeme with
  | word text =>
    have hnot : isWordChar c = false := hends c rfl
    rw [hchar] at hnot
    cases hnot
  | number text =>
    have hnot : isNumberChar c = false := hends c rfl
    rw [isNumberChar, hchar] at hnot
    cases hnot
  | lineComment text =>
    obtain rfl : c = '\n' := hends c rfl
    exact absurd hc (by decide)
  | blockComment text =>
    obtain ⟨inner, rfl, hcut⟩ := formed
    refine ⟨'/', ?_, by decide, iff_of_false (by decide) Bool.false_ne_true⟩
    rw [Lexeme.text, List.getLast?_cons, List.getLast?_cons, getLast?_of_cutComment hcut]
    rfl
  | openComment text => cases hends
  | mark d =>
    obtain ⟨hstart, hdigit⟩ := formed
    refine ⟨d, rfl, ?_, ?_⟩
    · rw [isWordStart, Bool.or_eq_false_iff] at hstart
      rw [isWordChar, Char.isAlphanum, hstart.1, hdigit, hstart.2]
      rfl
    · simp [Lexeme.isPeriod]

/-- A word that has been cut starts with what starts a word. -/
theorem Lexeme.Formed.head_word {text : List Char} (formed : (Lexeme.word text).Formed) :
    ∃ c, text.head? = some c ∧ isWordStart c = true := by
  obtain ⟨c, rest, rfl, hc, -⟩ := formed
  exact ⟨c, rfl, hc⟩

/-- A lexeme takes at least one byte. -/
theorem Lexeme.Formed.textSize_pos {lexeme : Lexeme} (formed : lexeme.Formed) :
    0 < textSize lexeme.text := by
  obtain ⟨c, rest, htext⟩ := List.exists_cons_of_ne_nil formed.text_ne_nil
  have hpos := c.utf8Size_pos
  rw [htext, textSize_cons]
  omega

/-- **Lexemes before a word** end in a character that is in no word, and in a period exactly if
their last one is a period. -/
theorem IsCut.last_before_word {text : List Char} {after : List Lexeme} : ∀ {before : List Lexeme},
    IsCut (before ++ .word text :: after) →
      (∀ c, (textOf before).getLast? = some c → isWordChar c = false) ∧
        (periodAfter false before = true ↔ (textOf before).getLast? = some '.')
  | [], _ => ⟨fun _ h => (by cases h), iff_of_false Bool.false_ne_true fun h => by cases h⟩
  | [lexeme], h => by
    obtain ⟨formed, hends, hrest⟩ := isCut_cons h
    obtain ⟨c, hhead, hc⟩ := (isCut_cons hrest).1.head_word
    have hends : lexeme.EndsBefore (textOf (.word text :: after)).head? := hends
    rw [textOf_cons, List.head?_append, Lexeme.text, hhead] at hends
    obtain ⟨d, hlast, hword, hperiod⟩ := Lexeme.last_before_word formed hends hc
    rw [textOf_cons, textOf_nil, List.append_nil, hlast]
    exact ⟨fun e he => Option.some.inj he ▸ hword, by rw [Option.some.injEq, hperiod]; rfl⟩
  | lexeme :: next :: before, h => by
    have hrest : IsCut (next :: before ++ .word text :: after) := (isCut_cons h).2.2
    have hne : textOf (next :: before) ≠ [] := by
      rw [textOf_cons]
      exact List.append_ne_nil_of_left_ne_nil (isCut_cons hrest).1.text_ne_nil _
    rw [textOf_cons lexeme, List.getLast?_append_of_ne_nil _ hne]
    exact IsCut.last_before_word hrest

/-- A comment that is not closed is the last lexeme of a text. -/
theorem IsCut.isOpen_eq_false {lexeme next : Lexeme} {rest : List Lexeme}
    (h : IsCut (lexeme :: next :: rest)) : lexeme.isOpen = false := by
  obtain ⟨-, hends, hrest⟩ := isCut_cons h
  cases lexeme with
  | openComment text =>
    have hnil : textOf (next :: rest) = [] := List.head?_eq_none_iff.mp hends
    rw [textOf_cons] at hnil
    exact absurd (List.append_eq_nil_iff.mp hnil).1 (isCut_cons hrest).1.text_ne_nil
  | _ => rfl

/-! ## 2. Words as maximal runs -/

/-- **A word stands in a text** as a maximal run of word characters, from the bytes before it to
those behind it. -/
structure Word.StandsIn (word : Word) (cs : List Char) : Prop where
  identifier : IsIdentifier word.text
  around : ∃ front back, cs = front ++ (word.text.toList ++ back) ∧
    word.start = textSize front ∧ word.stop = word.start + textSize word.text.toList ∧
    (∀ c, front.getLast? = some c → isWordChar c = false) ∧
    (∀ c, back.head? = some c → isWordChar c = false) ∧
    (word.afterPeriod = true ↔ front.getLast? = some '.')

theorem Word.StandsIn.isPart {word : Word} {cs : List Char} (h : word.StandsIn cs) :
    IsPart cs word.start word.stop word.text.toList := by
  obtain ⟨front, back, hcs, hstart, hstop, -⟩ := h.around
  exact ⟨front, back, hcs, hstart, hstop⟩

theorem Word.StandsIn.start_lt {word : Word} {cs : List Char} (h : word.StandsIn cs) :
    word.start < word.stop := by
  obtain ⟨-, -, -, -, hstop, -⟩ := h.around
  obtain ⟨c, rest, htext, -⟩ := h.identifier
  have hpos := c.utf8Size_pos
  rw [hstop, htext, textSize_cons]
  omega

/-- **Words of lexemes that are put together**: those behind know the place, and the period. -/
theorem wordsFrom_append : ∀ (ls ms : List Lexeme) (place : Nat) (afterPeriod : Bool),
    wordsFrom place afterPeriod (ls ++ ms) =
      wordsFrom place afterPeriod ls ++
        wordsFrom (place + textSize (textOf ls)) (periodAfter afterPeriod ls) ms
  | [], _, _, _ => rfl
  | lexeme :: rest, ms, place, afterPeriod => by
    have hstop : place + lexeme.byteSize + textSize (textOf rest) =
        place + textSize (textOf (lexeme :: rest)) := by
      rw [textOf_cons, textSize_append, byteSize_eq_textSize, Nat.add_assoc]
    rw [List.cons_append, wordsFrom_cons, wordsFrom_cons lexeme rest, List.append_assoc,
      wordsFrom_append rest ms, hstop]
    rfl

/-- Each word stems from a lexeme, at the place of that lexeme. -/
theorem mem_wordsFrom {word : Word} : ∀ {ls : List Lexeme} {place : Nat} {afterPeriod : Bool},
    word ∈ wordsFrom place afterPeriod ls → ∃ before text after, ls = before ++ .word text :: after ∧
      word = ⟨String.ofList text, place + textSize (textOf before),
        place + textSize (textOf before) + textSize text, periodAfter afterPeriod before⟩
  | [], _, _, h => absurd h List.not_mem_nil
  | lexeme :: rest, place, afterPeriod, h => by
    rw [wordsFrom_cons, List.mem_append, Option.mem_toList] at h
    rcases h with h | h
    · cases lexeme with
      | word text =>
        cases h
        exact ⟨[], text, rest, rfl, rfl⟩
      | _ => cases h
    · obtain ⟨before, text, after, rfl, rfl⟩ := mem_wordsFrom h
      refine ⟨lexeme :: before, text, after, rfl, ?_⟩
      rw [textOf_cons, textSize_append, ← Nat.add_assoc]
      rfl

/-- **The words of a text are maximal runs** of word characters. -/
theorem stands_of_mem_words {source : String} {word : Word} (h : word ∈ words source) :
    word.StandsIn source.toList := by
  refine ⟨isIdentifier_of_mem_words h, ?_⟩
  have hcut := isCut_lexemes source.toList
  have hall : textOf (lexemes source.toList) = source.toList := flatMap_text_lexemes _
  obtain ⟨before, text, after, hlexemes, rfl⟩ := mem_wordsFrom h
  rw [hlexemes] at hcut hall
  obtain ⟨hbefore, hperiod⟩ := hcut.last_before_word
  have hback : (Lexeme.word text).EndsBefore (textOf after).head? := (isCut_cons hcut.back).2.1
  rw [textOf_append, textOf_cons] at hall
  refine ⟨textOf before, textOf after, ?_, Nat.zero_add _, ?_, hbefore, hback, hperiod⟩
  · rw [← hall, String.toList_ofList, Lexeme.text]
  · rw [String.toList_ofList]

/-- **Between two words** there is something. -/
theorem wordsFrom_apart : ∀ {ls : List Lexeme}, IsCut ls → ∀ (place : Nat) (afterPeriod : Bool),
    (wordsFrom place afterPeriod ls).Pairwise fun earlier later => earlier.stop < later.start
  | [], _, _, _ => .nil
  | lexeme :: rest, h, place, afterPeriod => by
    obtain ⟨-, hends, hrest⟩ := isCut_cons h
    have hlater := wordsFrom_apart hrest (place + lexeme.byteSize) lexeme.isPeriod
    rw [wordsFrom_cons]
    cases lexeme with
    | word text =>
      refine .cons (fun later hmem => ?_) hlater
      obtain ⟨before, other, after, rfl, rfl⟩ := mem_wordsFrom hmem
      cases before with
      | nil =>
        -- A word would have gone on into the next one.
        obtain ⟨c, hhead, hc⟩ := (isCut_cons hrest).1.head_word
        rw [List.nil_append, textOf_cons, List.head?_append, Lexeme.text, hhead] at hends
        have hnot : isWordChar c = false := hends c rfl
        rw [isWordChar_of_isWordStart hc] at hnot
        cases hnot
      | cons first before =>
        have hpos := (isCut_cons hrest).1.textSize_pos
        dsimp only
        rw [textOf_cons, textSize_append]
        omega
    | _ => exact hlater

/-- **The words of a text** stand in order and do not touch. -/
theorem words_apart (source : String) :
    (words source).Pairwise fun earlier later => earlier.stop < later.start :=
  wordsFrom_apart (isCut_lexemes _) 0 false

/-! ## 3. Lines -/

/-- A word that stands further behind. -/
def Word.shift (bytes : Nat) (word : Word) : Word :=
  { word with start := word.start + bytes, stop := word.stop + bytes }

/-- What stands before the lexemes only moves their words. -/
theorem wordsFrom_shift (bytes : Nat) : ∀ (ls : List Lexeme) (place : Nat) (afterPeriod : Bool),
    wordsFrom (place + bytes) afterPeriod ls =
      (wordsFrom place afterPeriod ls).map (Word.shift bytes)
  | [], _, _ => rfl
  | lexeme :: rest, place, afterPeriod => by
    have hplace : place + bytes + lexeme.byteSize = place + lexeme.byteSize + bytes := by omega
    rw [wordsFrom_cons, wordsFrom_cons lexeme rest place, List.map_append, hplace,
      wordsFrom_shift bytes rest]
    congr 1
    cases lexeme with
    | word text => simp only [Lexeme.word?, Option.toList_some, List.map_cons, List.map_nil,
        Word.shift, hplace]
    | _ => rfl

/-- **The words of a line and of what comes after it**: the line end is one byte, and nothing behind
it is a member of what stands before. -/
theorem words_line {line : String} (closed : ClosesComments line.toList) (rest : String) :
    words (line ++ "\n" ++ rest) =
      words line ++ (words rest).map (Word.shift (line.utf8ByteSize + 1)) := by
  have htext : (line ++ "\n" ++ rest).toList = line.toList ++ '\n' :: rest.toList := by simp
  have hsize : textSize (textOf (lexemes line.toList)) = line.utf8ByteSize := by
    rw [textOf, flatMap_text_lexemes, utf8ByteSize_eq_textSize]
  have hmark : ∀ text, Lexeme.mark '\n' ≠ .word text := fun _ h => by cases h
  rw [words, htext, lexemes_line closed, wordsFrom_append, wordsFrom_of_ne_word hmark, hsize, words,
    words, ← wordsFrom_shift, Nat.zero_add, Nat.zero_add]
  rfl

end ShaderFabric
