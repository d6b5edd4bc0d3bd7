/-
# Substituted texts are cut where the text was

Substitution works on lexemes but its result is text, which is cut again.  It is cut into the
lexemes that were kept and those of the texts that were put in, since a text that is put in starts
like a word and ends in front of the same characters.  Texts of this kind are identifiers and calls
of one identifier on another (`Replacement.IsReference`).

* `substitute_eq_pieces` -- the text is the pieces that were kept and those that were put in;
* `lexemes_substitute` -- the lexemes of a text after substitution;
* `countReferences_le_substitute` -- references to a name that is replaced by an identifier become
  references to the identifier;
* `closesComments_substitute` -- no comment opens.
-/
import ShaderFabric.Proofs.Text.Reference

namespace ShaderFabric

/-! ## 1. What is put in -/

/-- What stands in place of a lexeme, if it is a word that is replaced. -/
def insertion (replaced : Table Replacement) (afterPeriod : Bool) : Lexeme → Option Replacement
  | .word text =>
    (replaced.find? (String.ofList text)).filter fun put => !afterPeriod || put.members
  | _ => none

theorem substituteLexeme_eq (replaced : Table Replacement) (afterPeriod : Bool) (lexeme : Lexeme) :
    substituteLexeme replaced afterPeriod lexeme =
      match insertion replaced afterPeriod lexeme with
      | some put => put.text.toList
      | none => lexeme.text := by
  cases lexeme with
  | word text =>
    simp only [substituteLexeme, insertion]
    cases replaced.find? (String.ofList text) with
    | none => rfl
    | some put =>
      obtain ⟨put, members⟩ := put
      cases afterPeriod <;> cases members <;> rfl
  | _ => rfl

/-- A piece of a text that words have been replaced in: one that was kept, or what was put in, with
the word it stands for. -/
inductive Piece
  | kept (text : List Char)
  | put (entry : String × Replacement)

namespace Piece

/-- What is written of a piece. -/
def text : Piece → List Char
  | kept text => text
  | put entry => entry.2.text.toList

/-- What was put in, if anything was. -/
def entry? : Piece → Option (String × Replacement)
  | kept _ => none
  | put entry => some entry

end Piece

/-- The piece that a lexeme comes to. -/
def piece (replaced : Table Replacement) (afterPeriod : Bool) (lexeme : Lexeme) : Piece :=
  match insertion replaced afterPeriod lexeme with
  | some put => .put (String.ofList lexeme.text, put)
  | none => .kept lexeme.text

/-- The pieces that lexemes come to. -/
def piecesFrom (replaced : Table Replacement) : Bool → List Lexeme → List Piece
  | _, [] => []
  | afterPeriod, lexeme :: rest =>
    piece replaced afterPeriod lexeme :: piecesFrom replaced lexeme.isPeriod rest

/-- The pieces of a text after substitution. -/
def pieces (replaced : Table Replacement) (source : String) : List Piece :=
  piecesFrom replaced false (lexemes source.toList)

/-- What is put into a text, in order, each with the word it stands for. -/
def insertions (replaced : Table Replacement) (source : String) : List (String × Replacement) :=
  (pieces replaced source).filterMap Piece.entry?

theorem text_piece (replaced : Table Replacement) (afterPeriod : Bool) (lexeme : Lexeme) :
    (piece replaced afterPeriod lexeme).text = substituteLexeme replaced afterPeriod lexeme := by
  rw [substituteLexeme_eq, piece]
  cases insertion replaced afterPeriod lexeme with
  | none => rfl
  | some put => rfl

theorem flatMap_text_piecesFrom (replaced : Table Replacement) :
    ∀ (ls : List Lexeme) (afterPeriod : Bool),
      (piecesFrom replaced afterPeriod ls).flatMap Piece.text =
        substituteFrom replaced afterPeriod ls
  | [], _ => rfl
  | lexeme :: rest, afterPeriod => by
    rw [piecesFrom, List.flatMap_cons, text_piece, flatMap_text_piecesFrom replaced rest]
    rfl

/-- **Substitution writes the pieces of a text**, and so puts in its insertions and nothing else. -/
theorem substitute_eq_pieces (replaced : Table Replacement) (source : String) :
    substitute replaced source =
      String.ofList ((pieces replaced source).flatMap Piece.text) := by
  rw [pieces, flatMap_text_piecesFrom]
  rfl

/-- Only what the table holds is put in. -/
theorem find?_of_put_mem_piecesFrom {replaced : Table Replacement} {entry : String × Replacement} :
    ∀ {ls : List Lexeme} {afterPeriod : Bool}, .put entry ∈ piecesFrom replaced afterPeriod ls →
      replaced.find? entry.1 = some entry.2
  | [], _, h => absurd h List.not_mem_nil
  | lexeme :: rest, afterPeriod, h => by
    rcases List.mem_cons.mp h with h | h
    · unfold piece at h
      split at h
      · rename_i put hput
        cases h
        cases lexeme with
        | word text => exact (Option.filter_eq_some_iff.mp hput).1
        | _ => cases hput
      · cases h
    · exact find?_of_put_mem_piecesFrom h

theorem find?_of_mem_insertions {replaced : Table Replacement} {source : String}
    {entry : String × Replacement} (h : entry ∈ insertions replaced source) :
    replaced.find? entry.1 = some entry.2 := by
  obtain ⟨piece, hpiece, hentry⟩ := List.mem_filterMap.mp h
  cases piece with
  | kept text => cases hentry
  | put other =>
    cases hentry
    exact find?_of_put_mem_piecesFrom hpiece

/-! ## 2. Identifiers and calls -/

/-- The argument of a call, as it is cut. -/
def argument (name : String) : List Lexeme := [.mark '(', .word name.toList, .mark ')']

/-- **A text that can stand in place of a word**: an identifier, or the call of one on another. -/
def Replacement.IsReference (put : Replacement) : Prop :=
  ∃ name, IsIdentifier name ∧
    (put.text = name ∨ ∃ given, IsIdentifier given ∧ put.text = name ++ "(" ++ given ++ ")")

/-- What stands in place of the words of a program: an identifier, or the call of one on what every
function of a material is given. -/
def Replacement.Sound (put : Replacement) : Prop :=
  ∃ name, IsIdentifier name ∧
    (put.text = name ∨ put.text = name ++ "(materialInput)")

theorem Replacement.Sound.isReference {put : Replacement} (sound : put.Sound) :
    put.IsReference := by
  obtain ⟨name, hname, htext⟩ := sound
  refine ⟨name, hname, htext.imp_right fun htext => ⟨"materialInput", ?_, ?_⟩⟩
  · exact ⟨'m', _, rfl, by decide, List.all_eq_true.mp (by decide)⟩
  · rw [htext, String.append_assoc, String.append_assoc]
    rfl

theorem formed_word_of_isIdentifier {name : String} (h : IsIdentifier name) :
    (Lexeme.word name.toList).Formed := h

/-- An identifier in front of a character that no word takes in. -/
theorem lexemes_identifier {name : String} (h : IsIdentifier name) {c : Char}
    (hc : isWordChar c = false) (next : List Char) :
    lexemes (name.toList ++ c :: next) = .word name.toList :: lexemes (c :: next) := by
  have hends : (Lexeme.word name.toList).EndsBefore (c :: next).head? :=
    fun d hd => Option.some.inj hd ▸ hc
  exact lexemes_text_append (formed_word_of_isIdentifier h) hends

theorem lexemes_of_isIdentifier {name : String} (h : IsIdentifier name) :
    lexemes name.toList = [.word name.toList] :=
  lexemes_text_of_formed (formed_word_of_isIdentifier h) (Lexeme.endsBefore_none _)

theorem lexemes_argument {name : String} (h : IsIdentifier name) (next : List Char) :
    lexemes ('(' :: (name.toList ++ ')' :: next)) = argument name ++ lexemes next := by
  have hlast : (Lexeme.mark ')').EndsBefore next.head? := fun h => absurd h (by decide)
  have hword : (Lexeme.word name.toList).EndsBefore (some ')') :=
    fun c hc => Option.some.inj hc ▸ (by decide)
  have hfirst : (Lexeme.mark '(').EndsBefore (name.toList ++ ')' :: next).head? :=
    fun h => absurd h (by decide)
  have hmarks : (Lexeme.mark '(').Formed ∧ (Lexeme.mark ')').Formed :=
    ⟨⟨by decide, by decide⟩, ⟨by decide, by decide⟩⟩
  calc lexemes ('(' :: (name.toList ++ ')' :: next))
      = .mark '(' :: lexemes ((Lexeme.word name.toList).text ++ ((Lexeme.mark ')').text ++ next)) :=
        lexemes_text_append hmarks.1 hfirst
    _ = .mark '(' :: .word name.toList :: lexemes ((Lexeme.mark ')').text ++ next) :=
        congrArg _ (lexemes_text_append (formed_word_of_isIdentifier h) hword)
    _ = argument name ++ lexemes next :=
        congrArg (fun ls => .mark '(' :: .word name.toList :: ls)
          (lexemes_text_append hmarks.2 hlast)

/-- An identifier, alone or with its argument. -/
theorem lexemes_of_isReference {put : Replacement} (hput : put.IsReference) :
    ∃ name rest, lexemes put.text.toList = .word name :: rest ∧
      (rest = [] ∨ ∃ given, rest = argument given) ∧
      ∃ c tail, put.text.toList = c :: tail ∧ isWordStart c = true := by
  obtain ⟨name, hname, htext⟩ := hput
  have formed := formed_word_of_isIdentifier hname
  obtain ⟨c, tail, hlist, hc, -⟩ := hname
  rcases htext with rfl | ⟨given, hgiven, htext⟩
  · refine ⟨put.text.toList, [], ?_, .inl rfl, c, tail, hlist, hc⟩
    exact lexemes_text_of_formed formed fun d hd => by cases hd
  · have hends : (Lexeme.word name.toList).EndsBefore (some '(') :=
      fun d hd => Option.some.inj hd ▸ (by decide)
    have hcut : put.text.toList = name.toList ++ '(' :: (given.toList ++ ')' :: []) := by
      rw [htext]
      simp
    refine ⟨name.toList, argument given, ?_, .inr ⟨given, rfl⟩, c,
      tail ++ '(' :: (given.toList ++ [')']), ?_, hc⟩
    · rw [hcut, ← List.append_nil (argument given), ← lexemes.eq_1, ← lexemes_argument hgiven]
      exact lexemes_text_append formed hends
    · rw [hcut, hlist, List.cons_append]

/-- What is put in ends in front of a character that no word takes in. -/
theorem lexemes_isReference_append {put : Replacement} (hput : put.IsReference) {next : List Char}
    (hnext : ∀ c, next.head? = some c → isWordChar c = false) :
    lexemes (put.text.toList ++ next) = lexemes put.text.toList ++ lexemes next := by
  obtain ⟨name, rest, hcut, hrest, -⟩ := lexemes_of_isReference hput
  refine lexemes_append fun last hlast => ?_
  rw [hcut] at hlast
  rcases hrest with rfl | ⟨given, rfl⟩
  · cases hlast
    exact hnext
  · cases hlast
    exact fun h => absurd h (by decide)

/-- An identifier or a call has no comment. -/
theorem closesComments_of_isReference {put : Replacement} (hput : put.IsReference) :
    ClosesComments put.text.toList := by
  obtain ⟨name, rest, hcut, hrest, -⟩ := lexemes_of_isReference hput
  intro l hl
  rw [hcut] at hl
  rcases hrest with rfl | ⟨given, rfl⟩
  · simp only [List.mem_singleton] at hl
    subst hl
    rfl
  · simp only [argument, List.mem_cons, List.not_mem_nil, or_false] at hl
    rcases hl with rfl | rfl | rfl | rfl <;> rfl

/-! ## 3. Texts after substitution -/

/-- The lexemes that come from one lexeme. -/
def substituted (replaced : Table Replacement) (afterPeriod : Bool) (lexeme : Lexeme) :
    List Lexeme :=
  match insertion replaced afterPeriod lexeme with
  | some put => lexemes put.text.toList
  | none => [lexeme]

/-- The lexemes that come from some lexemes. -/
def substitutedFrom (replaced : Table Replacement) : Bool → List Lexeme → List Lexeme
  | _, [] => []
  | afterPeriod, lexeme :: rest =>
    substituted replaced afterPeriod lexeme ++ substitutedFrom replaced lexeme.isPeriod rest

/-- A lexeme that ends in front of a word ends in front of every word. -/
theorem Lexeme.EndsBefore.wordStart {lexeme : Lexeme} {c d : Char}
    (h : lexeme.EndsBefore (some c)) (hc : isWordStart c = true) (hd : isWordStart d = true) :
    lexeme.EndsBefore (some d) := by
  have hword : isWordChar c = true := isWordChar_of_isWordStart hc
  cases lexeme with
  | word text =>
    rw [h c rfl] at hword
    cases hword
  | number text =>
    have hnumber := h c rfl
    rw [isNumberChar, hword] at hnumber
    cases hnumber
  | lineComment text =>
    obtain rfl := h c rfl
    cases hc
  | blockComment text => trivial
  | openComment text => cases h
  | mark e =>
    intro _ c' hc'
    cases hc'
    constructor
    · rintro rfl
      cases hd
    · rintro rfl
      cases hd

section Substitution

variable {replaced : Table Replacement}
  (hreplaced : ∀ name put, replaced.find? name = some put → put.IsReference)

include hreplaced

theorem isReference_of_insertion {lexeme : Lexeme} {afterPeriod : Bool} {put : Replacement}
    (h : insertion replaced afterPeriod lexeme = some put) : put.IsReference := by
  cases lexeme with
  | word text => exact hreplaced _ put (Option.filter_eq_some_iff.mp h).1
  | _ => cases h

/-- What stands in place of a lexeme starts as the lexeme does, or both start words. -/
theorem head?_substituteLexeme {lexeme : Lexeme} (formed : lexeme.Formed) (afterPeriod : Bool) :
    substituteLexeme replaced afterPeriod lexeme = lexeme.text ∨
      ∃ c d tail, lexeme.text.head? = some c ∧ isWordStart c = true ∧
        substituteLexeme replaced afterPeriod lexeme = d :: tail ∧ isWordStart d = true := by
  rw [substituteLexeme_eq]
  cases hput : insertion replaced afterPeriod lexeme with
  | none => exact .inl rfl
  | some put =>
    obtain ⟨_, _, -, -, d, tail, htail, hd⟩ :=
      lexemes_of_isReference (isReference_of_insertion hreplaced hput)
    cases lexeme with
    | word text =>
      obtain ⟨c, rest, rfl, hc, -⟩ := formed
      exact .inr ⟨c, d, tail, rfl, hc, htail, hd⟩
    | _ => cases hput

/-- **What ends in front of a text** ends in front of it after substitution. -/
theorem endsBefore_substituteFrom {lexeme : Lexeme} {cs : List Char}
    (h : lexeme.EndsBefore cs.head?) (afterPeriod : Bool) :
    lexeme.EndsBefore (substituteFrom replaced afterPeriod (lexemes cs)).head? := by
  cases cs with
  | nil =>
    rw [lexemes]
    exact h
  | cons c rest =>
    have formed := (formed_cutLexeme c rest).1
    obtain ⟨d, tail, hd⟩ := List.exists_cons_of_ne_nil (text_cutLexeme_ne_nil c rest)
    have htext := text_cutLexeme c rest
    rw [hd, List.cons_append] at htext
    obtain rfl : d = c := (List.cons.inj htext).1
    rw [lexemes_cons, substituteFrom]
    rcases head?_substituteLexeme hreplaced formed afterPeriod with
      hkept | ⟨e, e', rest', he, hstart, heq, he'⟩
    · rw [hkept, hd]
      exact h
    · rw [heq]
      rw [hd] at he
      cases he
      exact h.wordStart hstart he'

/-- **A text after substitution is cut where the text was.** -/
theorem lexemes_substituteFrom (cs : List Char) : ∀ afterPeriod : Bool,
    lexemes (substituteFrom replaced afterPeriod (lexemes cs)) =
      substitutedFrom replaced afterPeriod (lexemes cs) := by
  fun_induction lexemes cs with
  | case1 =>
    intro afterPeriod
    exact lexemes.eq_1
  | case2 c rest ih =>
    intro afterPeriod
    obtain ⟨formed, hfollows⟩ := formed_cutLexeme c rest
    generalize cutLexeme c rest = cut at *
    obtain ⟨lexeme, after⟩ := cut
    dsimp only at *
    have hrest := ih lexeme.isPeriod
    have hnext := endsBefore_substituteFrom hreplaced hfollows lexeme.isPeriod
    rw [substituteFrom, substitutedFrom, substituteLexeme_eq, substituted]
    change lexeme.EndsBefore
      (substituteFrom replaced lexeme.isPeriod (lexemes after)).head? at hnext
    change lexemes (_ ++ substituteFrom replaced lexeme.isPeriod (lexemes after)) = _
    cases hput : insertion replaced afterPeriod lexeme with
    | none =>
      dsimp only
      rw [lexemes_text_append formed hnext, hrest, List.singleton_append]
    | some put =>
      dsimp only
      cases lexeme with
      | word text =>
        rw [lexemes_isReference_append (isReference_of_insertion hreplaced hput) hnext, hrest]
      | _ => cases hput

/-- The lexemes of a text after substitution. -/
theorem lexemes_substitute (source : String) :
    lexemes (substitute replaced source).toList =
      substitutedFrom replaced false (lexemes source.toList) := by
  rw [substitute, String.toList_ofList]
  exact lexemes_substituteFrom hreplaced _ false

/-! ## 4. References and comments after substitution -/

/-- Past what comes from a lexeme there is a member where there was one past the lexeme. -/
theorem periodAfter_substituted (afterPeriod : Bool) (lexeme : Lexeme) :
    periodAfter afterPeriod (substituted replaced afterPeriod lexeme) = lexeme.isPeriod := by
  unfold substituted
  cases hput : insertion replaced afterPeriod lexeme with
  | none => rfl
  | some put =>
    obtain ⟨name, rest, hcut, hrest, -⟩ :=
      lexemes_of_isReference (isReference_of_insertion hreplaced hput)
    dsimp only
    rw [hcut]
    cases lexeme with
    | word text =>
      rcases hrest with rfl | ⟨given, rfl⟩
      · rfl
      · rfl
    | _ => cases hput

theorem referencesIn_le_substitutedFrom {name identifier : String}
    (hfind : replaced.find? name = some ⟨identifier, false⟩) (hid : IsIdentifier identifier) :
    ∀ (ls : List Lexeme) (afterPeriod : Bool),
      referencesIn name false afterPeriod ls ≤
        referencesIn identifier false afterPeriod (substitutedFrom replaced afterPeriod ls)
  | [], _ => Nat.le_refl _
  | lexeme :: rest, afterPeriod => by
    have hrest := referencesIn_le_substitutedFrom hfind hid rest lexeme.isPeriod
    have hfirst : (lexeme.refersTo name false afterPeriod).toNat ≤
        referencesIn identifier false afterPeriod (substituted replaced afterPeriod lexeme) := by
      cases hrefers : lexeme.refersTo name false afterPeriod with
      | false => exact Nat.zero_le _
      | true =>
        cases lexeme with
        | word text =>
          obtain ⟨hname, hperiod⟩ := Bool.and_eq_true_iff.mp hrefers
          obtain rfl := of_decide_eq_true hname
          obtain rfl : afterPeriod = false := by simpa using hperiod
          have hput : insertion replaced false (.word text) = some ⟨identifier, false⟩ := by
            rw [insertion, hfind]
            rfl
          unfold substituted
          rw [hput]
          dsimp only
          have hcut : lexemes identifier.toList = [.word identifier.toList] :=
            lexemes_text_of_formed (formed_word_of_isIdentifier hid) fun d hd => by cases hd
          rw [hcut, referencesIn, Lexeme.refersTo, String.ofList_toList, decide_eq_true rfl]
          exact Nat.le_refl _
        | _ => cases hrefers
    rw [substitutedFrom, referencesIn, referencesIn_append, periodAfter_substituted hreplaced]
    exact Nat.add_le_add hfirst hrest

/-- **References to a name that is replaced by an identifier** become references to the
identifier. -/
theorem countReferences_le_substitute {name identifier : String}
    (hfind : replaced.find? name = some ⟨identifier, false⟩) (hid : IsIdentifier identifier)
    (source : String) :
    countReferences source name false ≤
      countReferences (substitute replaced source) identifier false := by
  rw [countReferences_eq, countReferences_eq, lexemes_substitute hreplaced]
  exact referencesIn_le_substitutedFrom hreplaced hfind hid _ false

theorem isOpen_substitutedFrom : ∀ (ls : List Lexeme) (afterPeriod : Bool),
    (∀ l ∈ ls, l.isOpen = false) →
      ∀ l ∈ substitutedFrom replaced afterPeriod ls, l.isOpen = false
  | [], _, _, l, hl => absurd hl List.not_mem_nil
  | lexeme :: rest, afterPeriod, hclosed, l, hl => by
    rcases List.mem_append.mp hl with hl | hl
    · unfold substituted at hl
      cases hput : insertion replaced afterPeriod lexeme with
      | none =>
        rw [hput] at hl
        rw [List.mem_singleton.mp hl]
        exact hclosed lexeme List.mem_cons_self
      | some put =>
        rw [hput] at hl
        exact closesComments_of_isReference (isReference_of_insertion hreplaced hput) l hl
    · exact isOpen_substitutedFrom rest _
        (fun l hl => hclosed l (List.mem_cons_of_mem _ hl)) l hl

/-- **No comment opens** by substitution. -/
theorem closesComments_substitute {source : String} (closed : ClosesComments source.toList) :
    ClosesComments (substitute replaced source).toList := by
  unfold ClosesComments
  rw [lexemes_substitute hreplaced]
  exact isOpen_substitutedFrom hreplaced _ false closed

end Substitution

end ShaderFabric
