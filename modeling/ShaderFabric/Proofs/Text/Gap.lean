/-
# What stands between the words of a text

The words of a text are read off its lexemes, and so is what comes next after a place: a word, or a
semicolon.  Both can be said from the text alone: a lexeme that is no mark starts with something to
be seen, so where the text between two words is blank, its lexemes are blank marks.

* `CutFrom` -- the lexemes of a text from a place on;
* `Lexeme.Formed.visible` -- what is no mark starts with something to be seen;
* `nextSemicolon_eq` -- the semicolon that comes next, read off the text;
* `wordsFrom_eq_cons` -- the first word stands behind lexemes that hold none (`Wordless`);
* `nextWord_wordless` -- it comes next if and only if these are blank.
-/
import ShaderFabric.Proofs.Text.Slice

namespace ShaderFabric

/-! ## 1. Lexemes from a place on -/

/-- **The lexemes of a text from a place on.** -/
def CutFrom (cs : List Char) (place : Nat) (ls : List Lexeme) : Prop :=
  IsCut ls ∧ ∃ front, cs = front ++ textOf ls ∧ place = textSize front

namespace CutFrom

variable {cs : List Char} {place : Nat} {ls ms : List Lexeme}

theorem behind (ls : List Lexeme) {ms : List Lexeme} (h : CutFrom cs place (ls ++ ms)) :
    CutFrom cs (place + textSize (textOf ls)) ms := by
  obtain ⟨hcut, front, rfl, rfl⟩ := h
  refine ⟨hcut.back, front ++ textOf ls, ?_, ?_⟩
  · rw [textOf_append, List.append_assoc]
  · rw [textSize_append]

theorem tail {lexeme : Lexeme} (h : CutFrom cs place (lexeme :: ls)) :
    CutFrom cs (place + lexeme.byteSize) ls := by
  have hbehind := h.behind [lexeme]
  rwa [textOf_cons, textOf_nil, List.append_nil] at hbehind

/-- From one place on there is one text, and it is cut in one way. -/
theorem unique (h : CutFrom cs place ls) (hother : CutFrom cs place ms) : ls = ms := by
  obtain ⟨hls, front, hfront, hplace⟩ := h
  obtain ⟨hms, front', hfront', hplace'⟩ := hother
  have hsame := (cutAt_eq_some_iff.mpr ⟨hfront, hplace⟩).symm.trans
    (cutAt_eq_some_iff.mpr ⟨hfront', hplace'⟩)
  have htext : textOf ls = textOf ms := (Prod.mk.inj (Option.some.inj hsame)).2
  rw [← hls, htext, hms]

theorem formed (h : CutFrom cs place ls) : ∀ l ∈ ls, l.Formed := fun _ hl =>
  formed_of_mem_lexemes (h.1.symm ▸ hl)

end CutFrom

/-! ## 2. The next semicolon -/

/-- The characters of words and numbers lie between the blanks. -/
theorem toNat_of_isWordChar {c : Char} (h : isWordChar c = true) :
    48 ≤ c.toNat ∧ c.toNat ≤ 122 := by
  have h : ((decide (c.val ≥ 'A'.val ∧ c.val ≤ 'Z'.val) ||
    (c.val ≥ 'a'.val && c.val ≤ 'z'.val)) || (c.val ≥ '0'.val && c.val ≤ '9'.val) ||
      c = '_') = true := h
  simp only [Bool.or_eq_true, Bool.and_eq_true, decide_eq_true_eq, ge_iff_le,
    UInt32.le_iff_toNat_le] at h
  rcases h with ((⟨hlow, hhigh⟩ | ⟨hlow, hhigh⟩) | ⟨hlow, hhigh⟩) | rfl
  · exact ⟨Nat.le_trans (by decide) hlow, Nat.le_trans hhigh (by decide)⟩
  · exact ⟨Nat.le_trans (by decide) hlow, Nat.le_trans hhigh (by decide)⟩
  · exact ⟨hlow, Nat.le_trans hhigh (by decide)⟩
  · exact ⟨by decide, by decide⟩

theorem isBlank_eq_false_of_isWordChar {c : Char} (h : isWordChar c = true) :
    isBlank c = false := by
  have hbounds := toNat_of_isWordChar h
  refine eq_false_of_ne_true fun hblank => ?_
  simp only [isBlank, Bool.or_eq_true, Bool.and_eq_true, decide_eq_true_eq] at hblank
  omega

/-- What is no mark starts with something to be seen. -/
theorem Lexeme.Formed.visible {lexeme : Lexeme} (formed : lexeme.Formed)
    (h : ∀ c, lexeme ≠ .mark c) :
    ∃ c rest, lexeme.text = c :: rest ∧ isBlank c = false ∧ c ≠ ';' := by
  have hchar : ∀ c, isWordChar c = true → isBlank c = false ∧ c ≠ ';' := fun c hc =>
    ⟨isBlank_eq_false_of_isWordChar hc, fun heq => absurd (heq ▸ hc) (by decide)⟩
  cases lexeme with
  | mark c => exact absurd rfl (h c)
  | word text =>
    obtain ⟨c, rest, rfl, hc, -⟩ := formed
    exact ⟨c, rest, rfl, hchar c (isWordChar_of_isWordStart hc)⟩
  | number text =>
    obtain ⟨c, rest, rfl, hc, -⟩ := formed
    refine ⟨c, rest, rfl, hchar c ?_⟩
    rw [isWordChar, Char.isAlphanum, hc, Bool.or_true, Bool.true_or]
  | lineComment text =>
    obtain ⟨rest, rfl, -⟩ := formed
    exact ⟨'/', _, rfl, by decide, by decide⟩
  | blockComment text =>
    obtain ⟨inner, rfl, -⟩ := formed
    exact ⟨'/', _, rfl, by decide, by decide⟩
  | openComment text =>
    obtain ⟨inner, rfl, -⟩ := formed
    exact ⟨'/', _, rfl, by decide, by decide⟩

/-- The semicolon that comes next can be read off the text. -/
theorem nextSemicolon_eq : ∀ {ls : List Lexeme}, (∀ l ∈ ls, l.Formed) → ∀ taken,
    nextSemicolon taken ls =
      if ((textOf ls).dropWhile isBlank).head? = some ';' then
        some (taken + textSize ((textOf ls).takeWhile isBlank) + 1)
      else none
  | [], _, taken => rfl
  | lexeme :: rest, h, taken => by
    obtain ⟨hformed, hrest⟩ := List.forall_mem_cons.mp h
    by_cases hmark : ∃ c, lexeme = .mark c
    · obtain ⟨c, rfl⟩ := hmark
      have htext : textOf (.mark c :: rest) = c :: textOf rest := rfl
      rw [htext, nextSemicolon]
      by_cases hc : isBlank c = true
      · rw [if_pos hc, List.dropWhile_cons_of_pos hc, List.takeWhile_cons_of_pos hc,
          nextSemicolon_eq hrest, textSize_cons, Nat.add_assoc taken]
      · rw [if_neg hc, List.dropWhile_cons_of_neg hc, List.takeWhile_cons_of_neg hc,
          List.head?_cons]
        simp only [Option.some.injEq]
        rfl
    · -- neither a blank nor a semicolon
      obtain ⟨c, tail, htext, hc, hne⟩ := hformed.visible fun c heq => hmark ⟨c, heq⟩
      have hnone : nextSemicolon taken (lexeme :: rest) = none := by
        cases lexeme with
        | mark c => exact absurd ⟨c, rfl⟩ hmark
        | _ => rfl
      have hall : textOf (lexeme :: rest) = c :: (tail ++ textOf rest) := by
        rw [textOf_cons, htext, List.cons_append]
      have hhead : ¬ (c :: (tail ++ textOf rest)).head? = some ';' := fun heq =>
        hne (Option.some.inj heq)
      rw [hnone, hall, List.dropWhile_cons_of_neg (by rw [hc]; exact Bool.false_ne_true),
        if_neg hhead]

/-! ## 3. The next word -/

theorem wordsFrom_of_ne_word {lexeme : Lexeme} (h : ∀ text, lexeme ≠ .word text)
    (rest : List Lexeme) (place : Nat) (afterPeriod : Bool) :
    wordsFrom place afterPeriod (lexeme :: rest) =
      wordsFrom (place + lexeme.byteSize) lexeme.isPeriod rest := by
  rw [wordsFrom_cons]
  cases lexeme with
  | word text => exact absurd rfl (h text)
  | _ => rfl

/-- Lexemes that hold no word. -/
def Wordless (ls : List Lexeme) : Prop := ∀ l ∈ ls, ∀ text, l ≠ .word text

theorem IsGap.wordless {p : Char → Bool} {gap : List Lexeme} (h : IsGap p gap) : Wordless gap := by
  intro l hl text heq
  obtain ⟨c, hc, -⟩ := h l hl
  cases hc.symm.trans heq

/-- The first word stands behind lexemes that hold none. -/
theorem wordsFrom_eq_cons {word : Word} {later : List Word} : ∀ {ls : List Lexeme} {place : Nat}
    {afterPeriod : Bool}, wordsFrom place afterPeriod ls = word :: later →
      ∃ gap text rest, ls = gap ++ .word text :: rest ∧ Wordless gap ∧
        word.text = String.ofList text ∧ word.start = place + textSize (textOf gap) ∧
        word.stop = word.start + textSize text ∧ later = wordsFrom word.stop false rest
  | [], place, afterPeriod, h => by cases h
  | lexeme :: rest, place, afterPeriod, h => by
    by_cases hword : ∃ text, lexeme = .word text
    · obtain ⟨text, rfl⟩ := hword
      cases h
      exact ⟨[], text, rest, rfl, fun _ hmem => absurd hmem List.not_mem_nil, rfl, rfl, rfl, rfl⟩
    · rw [wordsFrom_of_ne_word fun text heq => hword ⟨text, heq⟩] at h
      obtain ⟨gap, text, after, rfl, hgap, htext, hstart, hstop, hlater⟩ := wordsFrom_eq_cons h
      refine ⟨lexeme :: gap, text, after, rfl, List.forall_mem_cons.mpr
        ⟨fun text heq => hword ⟨text, heq⟩, hgap⟩, htext, ?_, hstop, hlater⟩
      rw [hstart, textOf_cons, textSize_append, Nat.add_assoc]
      rfl

/-- Lexemes that hold no word only move the place. -/
theorem wordsFrom_wordless (rest : List Lexeme) : ∀ {gap : List Lexeme}, Wordless gap →
    ∀ place afterPeriod, wordsFrom place afterPeriod (gap ++ rest) =
      wordsFrom (place + textSize (textOf gap)) (periodAfter afterPeriod gap) rest
  | [], _, _, _ => rfl
  | lexeme :: gap, h, place, afterPeriod => by
    obtain ⟨hlexeme, hgap⟩ := List.forall_mem_cons.mp h
    rw [List.cons_append, wordsFrom_of_ne_word hlexeme, wordsFrom_wordless rest hgap, textOf_cons,
      textSize_append, byteSize_eq_textSize, Nat.add_assoc]
    rfl

/-- The next word is the first one, if only blanks stand before it. -/
theorem nextWord_wordless {text : List Char} {rest : List Lexeme} : ∀ {gap : List Lexeme},
    (∀ l ∈ gap, l.Formed) → Wordless gap → ∀ taken,
      nextWord taken (gap ++ .word text :: rest) =
        if (textOf gap).all isAsciiBlank then
          some (String.ofList text, taken + textSize (textOf gap) + textSize text, rest)
        else none
  | [], _, _, taken => rfl
  | lexeme :: gap, hformed, hwordless, taken => by
    obtain ⟨hlexeme, hinside⟩ := List.forall_mem_cons.mp hformed
    obtain ⟨hword, hgap⟩ := List.forall_mem_cons.mp hwordless
    by_cases hmark : ∃ c, lexeme = .mark c
    · obtain ⟨c, rfl⟩ := hmark
      have htext : textOf (.mark c :: gap) = c :: textOf gap := rfl
      rw [List.cons_append, nextWord, nextWord_wordless hinside hgap, htext, List.all_cons,
        textSize_cons, ← Nat.add_assoc]
      cases isAsciiBlank c <;> rfl
    · obtain ⟨c, tail, htext, hc, -⟩ := hlexeme.visible fun c heq => hmark ⟨c, heq⟩
      have hnone : nextWord taken (lexeme :: gap ++ .word text :: rest) = none := by
        cases lexeme with
        | word text => exact absurd rfl (hword text)
        | mark c => exact absurd ⟨c, rfl⟩ hmark
        | _ => rfl
      have hblank : ¬ (textOf (lexeme :: gap)).all isAsciiBlank = true := by
        rw [textOf_cons, htext, List.cons_append, List.all_cons, Bool.and_eq_true]
        rintro ⟨hblank, -⟩
        rw [isBlank_of_isAsciiBlank hblank] at hc
        cases hc
      rw [hnone, if_neg hblank]

/-- Without words there is no next one. -/
theorem nextWord_of_wordsFrom_nil {ls : List Lexeme} {place taken : Nat} {afterPeriod : Bool}
    (h : wordsFrom place afterPeriod ls = []) : nextWord taken ls = none := by
  by_contra hsome
  obtain ⟨⟨word, last, rest⟩, hnext⟩ := Option.ne_none_iff_exists'.mp hsome
  obtain ⟨gap, hgap, rfl, -⟩ := nextWord_eq_some hnext
  rw [wordsFrom_wordless _ hgap.wordless, wordsFrom] at h
  cases h

/-- Behind the semicolon the words go on. -/
theorem CutFrom.behind_semicolon {cs : List Char} {place : Nat} {ls : List Lexeme}
    (h : CutFrom cs place ls) {stop : Nat} (hstop : nextSemicolon place ls = some stop)
    (afterPeriod : Bool) :
    ∃ after, CutFrom cs stop after ∧
      wordsFrom place afterPeriod ls = wordsFrom stop false after := by
  obtain ⟨gap, after, hgap, rfl, rfl⟩ := nextSemicolon_eq_some hstop
  have hwhole : gap ++ .mark ';' :: after = (gap ++ [.mark ';']) ++ after := by simp
  have hwordless : Wordless (gap ++ [.mark ';']) :=
    List.forall_mem_append.mpr ⟨hgap.wordless, List.forall_mem_singleton.mpr
      fun _ heq => by cases heq⟩
  rw [hwhole] at h ⊢
  refine ⟨after, h.behind _, ?_⟩
  rw [wordsFrom_wordless _ hwordless, periodAfter_append]
  rfl

end ShaderFabric
