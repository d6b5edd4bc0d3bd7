/-
# The words of a text are identifiers

The cutting of a text makes a word of a letter or an underscore and all letters, digits and
underscores after it.  So a name that a text mentions is an identifier (`isIdentifier_of_mentions`),
whatever the name was allowed to be when it was declared.
-/
import Mathlib.Data.List.TakeWhile
import ShaderFabric.Text.Word

namespace ShaderFabric

/-! ## 1. Identifiers -/

/-- A letter or an underscore, and then letters, digits and underscores. -/
def IsIdentifier (name : String) : Prop :=
  ∃ c rest, name.toList = c :: rest ∧ isWordStart c = true ∧ ∀ d ∈ rest, isWordChar d = true

theorem isIdentifier_iff (name : String) : IsIdentifier name ↔
    name.toList.head?.any isWordStart = true ∧ name.toList.tail.all isWordChar = true := by
  constructor
  · rintro ⟨c, rest, hname, hc, hrest⟩
    rw [hname]
    exact ⟨hc, List.all_eq_true.mpr hrest⟩
  · rintro ⟨hhead, htail⟩
    cases hname : name.toList with
    | nil =>
      rw [hname] at hhead
      exact absurd hhead Bool.false_ne_true
    | cons c rest =>
      rw [hname] at hhead htail
      exact ⟨c, rest, hname, hhead, List.all_eq_true.mp htail⟩

instance (name : String) : Decidable (IsIdentifier name) :=
  decidable_of_iff _ (isIdentifier_iff name).symm

theorem IsIdentifier.append {name : String} (h : IsIdentifier name) {rest : String}
    (hrest : ∀ c ∈ rest.toList, isWordChar c = true) : IsIdentifier (name ++ rest) := by
  obtain ⟨c, tail, hname, hc, htail⟩ := h
  refine ⟨c, tail ++ rest.toList, ?_, hc, fun d hd => ?_⟩
  · rw [String.toList_append, hname, List.cons_append]
  · rcases List.mem_append.mp hd with hd | hd
    · exact htail d hd
    · exact hrest d hd

/-- No digit starts a word. -/
theorem isDigit_eq_false_of_isWordStart {c : Char} (h : isWordStart c = true) :
    c.isDigit = false := by
  have h : (decide (c.val ≥ 'A'.val ∧ c.val ≤ 'Z'.val) ||
    (c.val ≥ 'a'.val && c.val ≤ 'z'.val) || c = '_') = true := h
  simp only [Bool.or_eq_true, Bool.and_eq_true, decide_eq_true_eq] at h
  simp only [Char.isDigit, Bool.and_eq_false_iff, decide_eq_false_iff_not, UInt32.not_le]
  rcases h with (⟨h, -⟩ | ⟨h, -⟩) | rfl
  · exact .inr (Nat.lt_of_lt_of_le (by decide) (UInt32.le_iff_toNat_le.mp h))
  · exact .inr (Nat.lt_of_lt_of_le (by decide) (UInt32.le_iff_toNat_le.mp h))
  · exact .inr (by decide)

/-! ## 2. The words of a text -/

/-- A word is cut only where a word starts, and it goes on as long as there are word characters. -/
theorem isIdentifier_of_cutLexeme {c : Char} {rest text : List Char}
    (h : (cutLexeme c rest).1 = .word text) : IsIdentifier (String.ofList text) := by
  unfold cutLexeme at h
  split at h
  · rename_i hc
    cases h
    exact ⟨c, rest.takeWhile isWordChar, by rw [String.toList_ofList], hc,
      fun d hd => List.mem_takeWhile_imp hd⟩
  · exfalso
    repeat' split at h
    all_goals cases h

theorem isIdentifier_of_mem_lexemes {cs text : List Char} (h : .word text ∈ lexemes cs) :
    IsIdentifier (String.ofList text) := by
  fun_induction lexemes cs with
  | case1 => simp at h
  | case2 c rest ih =>
    rcases List.mem_cons.mp h with h | h
    · exact isIdentifier_of_cutLexeme h.symm
    · exact ih h

/-- The word that a lexeme at an offset is, if it is one. -/
def Lexeme.word? (offset : Nat) (afterPeriod : Bool) : Lexeme → Option Word
  | word text => some ⟨String.ofList text, offset, offset + (word text).byteSize, afterPeriod⟩
  | _ => none

/-- Words are read off lexeme by lexeme; of those before, only a period counts. -/
theorem wordsFrom_cons (lexeme : Lexeme) (rest : List Lexeme) (offset : Nat) (afterPeriod : Bool) :
    wordsFrom offset afterPeriod (lexeme :: rest) =
      (lexeme.word? offset afterPeriod).toList ++
        wordsFrom (offset + lexeme.byteSize) (lexeme = .mark '.') rest := by
  cases lexeme <;> simp [wordsFrom, Lexeme.word?]

/-- Every word stems from a word lexeme. -/
theorem mem_of_mem_wordsFrom {word : Word} : ∀ (ls : List Lexeme) (offset : Nat)
    (afterPeriod : Bool), word ∈ wordsFrom offset afterPeriod ls →
      ∃ text, .word text ∈ ls ∧ word.text = String.ofList text
  | [], _, _, h => by simp [wordsFrom] at h
  | lexeme :: rest, offset, afterPeriod, h => by
    rw [wordsFrom_cons, List.mem_append, Option.mem_toList] at h
    rcases h with h | h
    · cases lexeme with
      | word text =>
        cases h
        exact ⟨text, List.mem_cons_self, rfl⟩
      | _ => cases h
    · obtain ⟨text, ht, hword⟩ := mem_of_mem_wordsFrom rest _ _ h
      exact ⟨text, List.mem_cons_of_mem _ ht, hword⟩

theorem isIdentifier_of_mem_words {source : String} {word : Word} (h : word ∈ words source) :
    IsIdentifier word.text := by
  obtain ⟨text, ht, hw⟩ := mem_of_mem_wordsFrom _ _ _ h
  rw [hw]
  exact isIdentifier_of_mem_lexemes ht

/-- **Whatever a text mentions is an identifier.** -/
theorem isIdentifier_of_mentions {source name : String} {members : Bool}
    (h : mentions source name members = true) : IsIdentifier name := by
  simp only [mentions, countReferences, decide_eq_true_eq, List.countP_pos_iff] at h
  obtain ⟨word, hw, href⟩ := h
  simp only [Word.refersTo, Bool.and_eq_true, decide_eq_true_eq] at href
  rw [← href.1]
  exact isIdentifier_of_mem_words hw

end ShaderFabric
