/-
# Where lexemes end

A text that is put together from parts is cut like its parts as long as no lexeme goes on from one
part into the next.  Whether the last lexeme of a part goes on is decided by the first character of
what follows: a word by a word character, a line comment by anything but a line end, a slash by
another slash or a star, and a comment that is not closed by anything.

* `formed_cutLexeme` -- a lexeme that has been cut is formed, and ends before what follows it;
* `lexemes_text_append` -- a formed lexeme in front of a text that it ends before;
* `lexemes_append` -- a whole text in front of another one;
* `IsSeparator.endsBefore` -- all lexemes but trailing comments end before a separator.
-/
import ShaderFabric.Proofs.Text.Identifier

namespace ShaderFabric

/-! ## 1. Formed lexemes -/

namespace Lexeme

/-- **A lexeme of the right characters for its kind**, whatever stands after it. -/
def Formed : Lexeme → Prop
  | word text => ∃ c rest, text = c :: rest ∧ isWordStart c = true ∧
      ∀ d ∈ rest, isWordChar d = true
  | number text => ∃ c rest, text = c :: rest ∧ c.isDigit = true ∧
      ∀ d ∈ rest, isNumberChar d = true
  | lineComment text => ∃ rest, text = '/' :: '/' :: rest ∧ ∀ d ∈ rest, d ≠ '\n'
  | blockComment text => ∃ inner, text = '/' :: '*' :: inner ∧ cutComment inner = some (inner, [])
  | openComment text => ∃ inner, text = '/' :: '*' :: inner ∧ cutComment inner = none
  | mark c => isWordStart c = false ∧ c.isDigit = false

/-- **A lexeme does not go on** into a text of this first character. -/
def EndsBefore (lexeme : Lexeme) (next : Option Char) : Prop :=
  match lexeme with
  | word _ => ∀ c, next = some c → isWordChar c = false
  | number _ => ∀ c, next = some c → isNumberChar c = false
  | lineComment _ => ∀ c, next = some c → c = '\n'
  | blockComment _ => True
  | openComment _ => next = none
  | mark d => d = '/' → ∀ c, next = some c → c ≠ '/' ∧ c ≠ '*'

/-- At the end of a text every lexeme ends. -/
theorem endsBefore_none (lexeme : Lexeme) : lexeme.EndsBefore none := by
  cases lexeme with
  | openComment text => rfl
  | blockComment text => trivial
  | mark c => exact fun _ d hd => by cases hd
  | _ => exact fun d hd => by cases hd

/-- A comment that only a line end, or the end of the text, ends. -/
def isTrailing : Lexeme → Bool
  | lineComment _ | openComment _ => true
  | _ => false

/-- A comment that goes on to the end of the text. -/
def isOpen : Lexeme → Bool
  | openComment _ => true
  | _ => false

end Lexeme

/-! ## 2. Runs -/

section Runs

variable {α : Type} {p : α → Bool} {inside after : List α}

theorem takeWhile_run (hinside : ∀ c ∈ inside, p c = true)
    (hafter : ∀ c, after.head? = some c → p c = false) :
    (inside ++ after).takeWhile p = inside := by
  rw [List.takeWhile_append_of_pos hinside]
  cases after with
  | nil => rw [List.takeWhile_nil, List.append_nil]
  | cons c rest =>
    rw [List.takeWhile_cons_of_neg (by rw [hafter c rfl]; exact Bool.false_ne_true),
      List.append_nil]

theorem dropWhile_run (hinside : ∀ c ∈ inside, p c = true)
    (hafter : ∀ c, after.head? = some c → p c = false) :
    (inside ++ after).dropWhile p = after := by
  rw [List.dropWhile_append_of_pos hinside]
  cases after with
  | nil => rfl
  | cons c rest =>
    rw [List.dropWhile_cons_of_neg (by rw [hafter c rfl]; exact Bool.false_ne_true)]

theorem head?_dropWhile {cs : List α} {c : α} (h : (cs.dropWhile p).head? = some c) :
    p c = false := by
  have hnot := List.head?_dropWhile_not p cs
  rw [h] at hnot
  exact hnot

end Runs

/-! ## 3. Comments -/

/-- A character that does not start the end of a comment is part of it. -/
theorem cutComment_cons {c : Char} {rest : List Char}
    (hopen : c = '*' → rest.head? ≠ some '/') :
    cutComment (c :: rest) = (cutComment rest).map fun cut => (c :: cut.1, cut.2) :=
  cutComment.eq_3 _ _ fun tail hc hrest => hopen hc (by rw [hrest]; rfl)

/-- A comment that is not closed does not end with its first character. -/
theorem head?_ne_of_cutComment {c : Char} {rest : List Char} (h : cutComment (c :: rest) = none) :
    c = '*' → rest.head? ≠ some '/' := by
  rintro rfl hhead
  obtain ⟨tail, rfl⟩ := List.head?_eq_some_iff.mp hhead
  cases h

theorem ne_nil_of_cutComment {cs inner rest : List Char} (h : cutComment cs = some (inner, rest)) :
    inner ≠ [] := by
  unfold cutComment at h
  split at h
  · cases h
  · cases h
    exact List.cons_ne_nil _ _
  · obtain ⟨_, _, heq⟩ := Option.map_eq_some_iff.mp h
    cases heq
    exact List.cons_ne_nil _ _

/-- **A comment ends in the first place that closes it**, whatever comes after. -/
theorem cutComment_append {cs inner rest : List Char} (h : cutComment cs = some (inner, rest))
    (next : List Char) : cutComment (inner ++ next) = some (inner, next) := by
  fun_induction cutComment cs generalizing inner rest with
  | case1 => cases h
  | case2 rest' =>
    cases h
    rfl
  | case3 c rest' hopen ih =>
    obtain ⟨⟨i, r⟩, hcut, heq⟩ := Option.map_eq_some_iff.mp h
    cases heq
    have hstill : c = '*' → (i ++ next).head? ≠ some '/' := by
      intro hc hhead
      cases i with
      | nil => exact ne_nil_of_cutComment hcut rfl
      | cons d i =>
        obtain rfl : d = '/' := Option.some.inj hhead
        exact hopen (i ++ rest) hc (by rw [← cutComment_eq hcut]; rfl)
    rw [List.cons_append, cutComment_cons hstill, ih hcut]
    rfl

/-! ## 4. Cutting -/

theorem not_isWordStart_of_isDigit {c : Char} (h : c.isDigit = true) : isWordStart c = false := by
  refine eq_false_of_ne_true fun hstart => ?_
  rw [isDigit_eq_false_of_isWordStart hstart] at h
  exact Bool.false_ne_true h

/-- What starts a word can also go on with it. -/
theorem isWordChar_of_isWordStart {c : Char} (h : isWordStart c = true) : isWordChar c = true := by
  unfold isWordStart at h
  unfold isWordChar Char.isAlphanum
  rcases Bool.or_eq_true_iff.mp h with h | h
  · rw [h]
    rfl
  · rw [h, Bool.or_true]

theorem isWordChar_of_isDigit {c : Char} (h : c.isDigit = true) : isWordChar c = true := by
  unfold isWordChar Char.isAlphanum
  rw [h, Bool.or_true, Bool.true_or]

theorem IsIdentifier.isWordChar {name : String} (h : IsIdentifier name) :
    ∀ c ∈ name.toList, isWordChar c = true := by
  obtain ⟨c, tail, hname, hc, htail⟩ := h
  rw [hname]
  exact List.forall_mem_cons.mpr ⟨isWordChar_of_isWordStart hc, htail⟩

/-- **What has been cut is formed, and ends before what follows it.** -/
theorem formed_cutLexeme (c : Char) (rest : List Char) :
    (cutLexeme c rest).1.Formed ∧ (cutLexeme c rest).1.EndsBefore (cutLexeme c rest).2.head? := by
  unfold cutLexeme
  split
  · rename_i hc
    exact ⟨⟨c, _, rfl, hc, fun d hd => List.mem_takeWhile_imp hd⟩, fun d hd => head?_dropWhile hd⟩
  · rename_i hc
    split
    · rename_i hdigit
      exact ⟨⟨c, _, rfl, hdigit, fun d hd => List.mem_takeWhile_imp hd⟩,
        fun d hd => head?_dropWhile hd⟩
    · rename_i hdigit
      have hmark : (Lexeme.mark c).Formed := ⟨eq_false_of_ne_true hc, eq_false_of_ne_true hdigit⟩
      split
      · rename_i hslash
        subst hslash
        split
        · rename_i tail
          refine ⟨⟨tail.takeWhile (· ≠ '\n'), ?_, fun d hd => ?_⟩, fun d hd => ?_⟩
          · rw [List.takeWhile_cons_of_pos (by decide)]
          · exact of_decide_eq_true (List.mem_takeWhile_imp (p := fun d => decide (d ≠ '\n')) hd)
          · exact Decidable.not_not.mp (of_decide_eq_false
              (head?_dropWhile (p := fun d => decide (d ≠ '\n')) hd))
        · rename_i inner
          split
          · rename_i closed after hcut
            have hinner := cutComment_append hcut []
            rw [List.append_nil] at hinner
            exact ⟨⟨_, rfl, hinner⟩, trivial⟩
          · rename_i hcut
            exact ⟨⟨_, rfl, hcut⟩, rfl⟩
        · rename_i hline hblock
          refine ⟨hmark, fun _ d hd => ⟨?_, ?_⟩⟩
          · rintro rfl
            exact hline _ (List.head?_eq_some_iff.mp hd).choose_spec
          · rintro rfl
            exact hblock _ (List.head?_eq_some_iff.mp hd).choose_spec
      · rename_i hslash
        exact ⟨hmark, fun h => absurd h hslash⟩

theorem cutLexeme_blockComment {cs inner rest : List Char}
    (h : cutComment cs = some (inner, rest)) :
    cutLexeme '/' ('*' :: cs) = (.blockComment ('/' :: '*' :: inner), rest) := by
  unfold cutLexeme
  rw [if_neg (by decide), if_neg (by decide), if_pos rfl]
  simp only [h]

theorem cutLexeme_openComment {cs : List Char} (h : cutComment cs = none) :
    cutLexeme '/' ('*' :: cs) = (.openComment ('/' :: '*' :: cs), []) := by
  unfold cutLexeme
  rw [if_neg (by decide), if_neg (by decide), if_pos rfl]
  simp only [h]

/-- **A formed lexeme is cut off** in front of a text that it ends before. -/
theorem cutLexeme_of_formed {lexeme : Lexeme} (formed : lexeme.Formed) {next : List Char}
    (hends : lexeme.EndsBefore next.head?) :
    ∃ c rest, lexeme.text = c :: rest ∧ cutLexeme c (rest ++ next) = (lexeme, next) := by
  cases lexeme with
  | word text =>
    obtain ⟨c, rest, rfl, hc, hrest⟩ := formed
    refine ⟨c, rest, rfl, ?_⟩
    unfold cutLexeme
    rw [if_pos hc, takeWhile_run hrest hends, dropWhile_run hrest hends]
  | number text =>
    obtain ⟨c, rest, rfl, hdigit, hrest⟩ := formed
    refine ⟨c, rest, rfl, ?_⟩
    unfold cutLexeme
    rw [not_isWordStart_of_isDigit hdigit, if_neg Bool.false_ne_true, if_pos hdigit,
      takeWhile_run hrest hends, dropWhile_run hrest hends]
  | lineComment text =>
    obtain ⟨rest, rfl, hrest⟩ := formed
    have hinside : ∀ d ∈ '/' :: rest, decide (d ≠ '\n') = true :=
      List.forall_mem_cons.mpr ⟨by decide, fun d hd => decide_eq_true (hrest d hd)⟩
    have hafter : ∀ d, next.head? = some d → decide (d ≠ '\n') = false := fun d hd =>
      decide_eq_false (not_not_intro (hends d hd))
    refine ⟨'/', '/' :: rest, rfl, ?_⟩
    show (Lexeme.lineComment ('/' :: ('/' :: rest ++ next).takeWhile fun d => decide (d ≠ '\n')),
      ('/' :: rest ++ next).dropWhile fun d => decide (d ≠ '\n')) = _
    rw [takeWhile_run hinside hafter, dropWhile_run hinside hafter]
  | blockComment text =>
    obtain ⟨inner, rfl, hcut⟩ := formed
    exact ⟨'/', '*' :: inner, rfl, cutLexeme_blockComment (cutComment_append hcut next)⟩
  | openComment text =>
    obtain ⟨inner, rfl, hcut⟩ := formed
    obtain rfl : next = [] := List.head?_eq_none_iff.mp hends
    refine ⟨'/', '*' :: inner, rfl, ?_⟩
    rw [List.append_nil]
    exact cutLexeme_openComment hcut
  | mark c =>
    obtain ⟨hstart, hdigit⟩ := formed
    refine ⟨c, [], rfl, ?_⟩
    rw [List.nil_append]
    unfold cutLexeme
    rw [hstart, hdigit, if_neg Bool.false_ne_true, if_neg Bool.false_ne_true]
    split
    · rename_i hslash
      split
      · exact absurd rfl (hends hslash _ rfl).1
      · exact absurd rfl (hends hslash _ rfl).2
      · rfl
    · rfl

/-! ## 5. Texts put together -/

theorem lexemes_cons (c : Char) (rest : List Char) :
    lexemes (c :: rest) = (cutLexeme c rest).1 :: lexemes (cutLexeme c rest).2 := by
  rw [lexemes]

/-- **A formed lexeme in front of a text** that it ends before is one lexeme more. -/
theorem lexemes_text_append {lexeme : Lexeme} (formed : lexeme.Formed) {next : List Char}
    (hends : lexeme.EndsBefore next.head?) :
    lexemes (lexeme.text ++ next) = lexeme :: lexemes next := by
  obtain ⟨c, rest, htext, hcut⟩ := cutLexeme_of_formed formed hends
  rw [htext, List.cons_append, lexemes_cons, hcut]

/-- A formed lexeme that ends at the end of the text is its only one. -/
theorem lexemes_text_of_formed {lexeme : Lexeme} (formed : lexeme.Formed)
    (hends : lexeme.EndsBefore none) : lexemes lexeme.text = [lexeme] := by
  have hcut : lexemes (lexeme.text ++ []) = lexeme :: lexemes [] :=
    lexemes_text_append formed hends
  rwa [List.append_nil, lexemes] at hcut

/-- **A text in front of another one** that its last lexeme ends before is cut like both. -/
theorem lexemes_append {cs next : List Char}
    (hends : ∀ last, (lexemes cs).getLast? = some last → last.EndsBefore next.head?) :
    lexemes (cs ++ next) = lexemes cs ++ lexemes next := by
  fun_induction lexemes cs with
  | case1 => rfl
  | case2 c rest ih =>
    obtain ⟨formed, hfollows⟩ := formed_cutLexeme c rest
    have htext := text_cutLexeme c rest
    generalize cutLexeme c rest = cut at *
    obtain ⟨lexeme, after⟩ := cut
    dsimp only at *
    have hfirst : lexeme.EndsBefore (after ++ next).head? := by
      cases after with
      | nil =>
        refine hends lexeme ?_
        rw [lexemes]
        rfl
      | cons d after => exact hfollows
    have hrest : ∀ last, (lexemes after).getLast? = some last → last.EndsBefore next.head? := by
      intro last hlast
      refine hends last ?_
      rw [List.getLast?_cons, hlast]
      rfl
    rw [← htext, List.append_assoc, lexemes_text_append formed hfirst, ih hrest, List.cons_append]

theorem formed_of_mem_lexemes {lexeme : Lexeme} {cs : List Char} (h : lexeme ∈ lexemes cs) :
    lexeme.Formed := by
  fun_induction lexemes cs with
  | case1 => cases h
  | case2 c rest ih =>
    rcases List.mem_cons.mp h with rfl | h
    · exact (formed_cutLexeme c rest).1
    · exact ih h

/-- A character that is in no word and no number, and is no slash, is a lexeme of its own. -/
theorem lexemes_mark {c : Char} (hstart : isWordStart c = false) (hdigit : c.isDigit = false)
    (hslash : c ≠ '/') (next : List Char) : lexemes (c :: next) = .mark c :: lexemes next := by
  have formed : (Lexeme.mark c).Formed := ⟨hstart, hdigit⟩
  exact lexemes_text_append formed fun h => absurd h hslash

/-! ## 6. Separators -/

/-- A character that is in no word and no number, and starts and ends no comment. -/
structure IsSeparator (c : Char) : Prop where
  number : isNumberChar c = false
  slash : c ≠ '/'
  star : c ≠ '*'

namespace IsSeparator

theorem newline : IsSeparator '\n' := ⟨by decide, by decide, by decide⟩

theorem blank : IsSeparator ' ' := ⟨by decide, by decide, by decide⟩

theorem semicolon : IsSeparator ';' := ⟨by decide, by decide, by decide⟩

variable {c : Char} (separator : IsSeparator c)

include separator

theorem isWordChar : isWordChar c = false :=
  (Bool.or_eq_false_iff.mp separator.number).1

theorem formed : (Lexeme.mark c).Formed := by
  have hword := separator.isWordChar
  unfold ShaderFabric.isWordChar Char.isAlphanum at hword
  unfold Lexeme.Formed isWordStart
  simp only [Bool.or_eq_false_iff] at hword ⊢
  exact ⟨⟨hword.1.1, hword.2⟩, hword.1.2⟩

/-- A separator is a lexeme of its own, whatever follows it. -/
theorem lexemes_cons (next : List Char) : lexemes (c :: next) = .mark c :: lexemes next :=
  lexemes_mark separator.formed.1 separator.formed.2 separator.slash next

/-- All lexemes but trailing comments end before a separator. -/
theorem endsBefore {lexeme : Lexeme} (h : lexeme.isTrailing = false) :
    lexeme.EndsBefore (some c) := by
  cases lexeme with
  | word => exact fun d hd => Option.some.inj hd ▸ separator.isWordChar
  | number => exact fun d hd => Option.some.inj hd ▸ separator.number
  | mark => exact fun _ d hd => Option.some.inj hd ▸ ⟨separator.slash, separator.star⟩
  | lineComment => cases h
  | blockComment => trivial
  | openComment => cases h

end IsSeparator

end ShaderFabric
