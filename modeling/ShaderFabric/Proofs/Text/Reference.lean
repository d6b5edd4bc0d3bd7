/-
# References in texts that are put together

How often a text refers to a name is counted along its lexemes; of the lexemes before, a reference
only needs to know whether the last one is a period.  So where a text is cut like its parts, its
references are those of its parts:

* `countReferences_eq` -- the count along the lexemes;
* `countReferences_line` -- a text that closes its comments, in front of a line end;
* `countReferences_snoc` -- a separator at the end of a text changes nothing;
* `countReferences_after` -- what stands before a text, up to a separator, takes nothing away;
* `countReferences_intercalate` -- lines.
-/
import ShaderFabric.Proofs.Text.Boundary

namespace ShaderFabric

/-! ## 1. Counting along lexemes -/

namespace Lexeme

/-- Whether a lexeme refers to a name; `members` admits it after a period. -/
def refersTo (name : String) (members afterPeriod : Bool) : Lexeme → Bool
  | word text => String.ofList text = name && (members || !afterPeriod)
  | _ => false

/-- A period makes a member of the word after it. -/
def isPeriod (lexeme : Lexeme) : Bool := lexeme = mark '.'

end Lexeme

/-- How many of the lexemes refer to a name, after a period or not. -/
def referencesIn (name : String) (members : Bool) : Bool → List Lexeme → Nat
  | _, [] => 0
  | afterPeriod, lexeme :: rest =>
    (lexeme.refersTo name members afterPeriod).toNat
      + referencesIn name members lexeme.isPeriod rest

section Counting

variable {name : String} {members : Bool}

theorem countP_wordsFrom : ∀ (ls : List Lexeme) (offset : Nat) (afterPeriod : Bool),
    (wordsFrom offset afterPeriod ls).countP (fun word => word.refersTo name members) =
      referencesIn name members afterPeriod ls
  | [], _, _ => rfl
  | lexeme :: rest, offset, afterPeriod => by
    rw [wordsFrom_cons, List.countP_append, countP_wordsFrom rest, referencesIn]
    congr 1
    cases lexeme with
    | word text =>
      simp only [Lexeme.word?, Option.toList_some, List.countP_singleton]
      cases h : (Lexeme.word text).refersTo name members afterPeriod
      · exact if_neg (Bool.eq_false_iff.mp h)
      · exact if_pos h
    | _ => rfl

/-- **References are counted along the lexemes.** -/
theorem countReferences_eq (source : String) :
    countReferences source name members = referencesIn name members false (lexemes source.toList) :=
  countP_wordsFrom _ 0 false

/-- Whether a word after these lexemes is a member. -/
def periodAfter : Bool → List Lexeme → Bool
  | afterPeriod, [] => afterPeriod
  | _, lexeme :: rest => periodAfter lexeme.isPeriod rest

theorem referencesIn_append : ∀ (ls ms : List Lexeme) (afterPeriod : Bool),
    referencesIn name members afterPeriod (ls ++ ms) =
      referencesIn name members afterPeriod ls +
        referencesIn name members (periodAfter afterPeriod ls) ms
  | [], _, _ => (Nat.zero_add _).symm
  | lexeme :: rest, ms, afterPeriod => by
    rw [List.cons_append, referencesIn, referencesIn, referencesIn_append rest ms, Nat.add_assoc]
    rfl

/-- Across a separator nothing is a member. -/
theorem referencesIn_separator {c : Char} (separator : IsSeparator c) (ls ms : List Lexeme)
    (afterPeriod : Bool) :
    referencesIn name members afterPeriod (ls ++ .mark c :: ms) =
      referencesIn name members afterPeriod ls + referencesIn name members false ms := by
  have hperiod : (Lexeme.mark c).isPeriod = false := by
    refine decide_eq_false fun h => ?_
    have hnumber := separator.number
    rw [Lexeme.mark.inj h] at hnumber
    exact absurd hnumber (by decide)
  rw [referencesIn_append, referencesIn, hperiod]
  exact congrArg _ (Nat.zero_add _)

end Counting

/-! ## 2. Texts that close their comments -/

/-- **A text that closes the block comments it opens.** -/
def ClosesComments (cs : List Char) : Prop := ∀ lexeme ∈ lexemes cs, lexeme.isOpen = false

instance (cs : List Char) : Decidable (ClosesComments cs) :=
  inferInstanceAs (Decidable (∀ lexeme ∈ lexemes cs, lexeme.isOpen = false))

/-- **A line end closes a line**, even one that ends in a comment. -/
theorem lexemes_line {cs : List Char} (closed : ClosesComments cs) (next : List Char) :
    lexemes (cs ++ '\n' :: next) = lexemes cs ++ .mark '\n' :: lexemes next := by
  rw [lexemes_append, IsSeparator.newline.lexemes_cons]
  intro last hlast
  have hopen := closed last (List.mem_of_getLast? hlast)
  cases last with
  | lineComment => exact fun c hc => (Option.some.inj hc).symm
  | openComment => cases hopen
  | _ => exact IsSeparator.newline.endsBefore rfl

/-- A comment that is not closed stays open before a separator. -/
theorem cutComment_snoc {c : Char} (hslash : c ≠ '/') : ∀ {cs : List Char},
    cutComment cs = none → cutComment (cs ++ [c]) = none
  | [], _ => by
    rw [List.nil_append, cutComment_cons fun _ hhead => by cases hhead]
    rfl
  | d :: rest, h => by
    have hopen := head?_ne_of_cutComment h
    have hstill : d = '*' → (rest ++ [c]).head? ≠ some '/' := by
      intro hd hhead
      cases rest with
      | nil => exact hslash (Option.some.inj hhead)
      | cons e rest => exact hopen hd hhead
    rw [cutComment_cons hopen, Option.map_eq_none_iff] at h
    rw [List.cons_append, cutComment_cons hstill, cutComment_snoc hslash h]
    rfl

/-- A word, or anything else. -/
def Lexeme.isWord : Lexeme → Bool
  | word _ => true
  | _ => false

/-- A trailing comment takes in a separator, unless that is a line end, which ends it. -/
theorem lexemes_trailing {lexeme : Lexeme} (formed : lexeme.Formed)
    (htrailing : lexeme.isTrailing = true) {c : Char} (separator : IsSeparator c) :
    ∀ l ∈ lexemes (lexeme.text ++ [c]),
      l.isWord = false ∧ (l.isOpen = true → lexeme.isOpen = true) := by
  cases lexeme with
  | lineComment text =>
    obtain ⟨rest, rfl, hrest⟩ := id formed
    by_cases hc : c = '\n'
    · subst hc
      have hends : (Lexeme.lineComment ('/' :: '/' :: rest)).EndsBefore (some '\n') :=
        fun d hd => (Option.some.inj hd).symm
      have hcut : lexemes ('/' :: '/' :: rest ++ ['\n']) = _ := lexemes_text_append formed hends
      show ∀ l ∈ lexemes ('/' :: '/' :: rest ++ ['\n']), _
      rw [hcut, separator.lexemes_cons]
      intro l hl
      rcases List.mem_cons.mp hl with rfl | hl
      · exact ⟨rfl, fun h => by cases h⟩
      · rcases List.mem_cons.mp hl with rfl | hl
        · exact ⟨rfl, fun h => by cases h⟩
        · rw [lexemes] at hl
          exact absurd hl List.not_mem_nil
    · have hlonger : (Lexeme.lineComment ('/' :: '/' :: (rest ++ [c]))).Formed := by
        refine ⟨rest ++ [c], rfl, fun d hd => ?_⟩
        rcases List.mem_append.mp hd with hd | hd
        · exact hrest d hd
        · rw [List.mem_singleton.mp hd]
          exact hc
      have hcut := lexemes_text_of_formed hlonger fun d hd => by cases hd
      intro l hl
      rw [show (Lexeme.lineComment ('/' :: '/' :: rest)).text ++ [c] =
        (Lexeme.lineComment ('/' :: '/' :: (rest ++ [c]))).text from rfl, hcut] at hl
      rw [List.mem_singleton.mp hl]
      exact ⟨rfl, fun h => by cases h⟩
  | openComment text =>
    obtain ⟨inner, rfl, hinner⟩ := id formed
    have hlonger : (Lexeme.openComment ('/' :: '*' :: (inner ++ [c]))).Formed :=
      ⟨inner ++ [c], rfl, cutComment_snoc separator.slash hinner⟩
    have hcut := lexemes_text_of_formed hlonger rfl
    intro l hl
    rw [show (Lexeme.openComment ('/' :: '*' :: inner)).text ++ [c] =
      (Lexeme.openComment ('/' :: '*' :: (inner ++ [c]))).text from rfl, hcut] at hl
    rw [List.mem_singleton.mp hl]
    exact ⟨rfl, fun _ => rfl⟩
  | word => cases htrailing
  | number => cases htrailing
  | blockComment => cases htrailing
  | mark => cases htrailing

/-- **A separator at the end of a text** is a lexeme of its own or part of a trailing comment: no
word changes, and no comment opens. -/
theorem lexemes_snoc {c : Char} (separator : IsSeparator c) (cs : List Char) :
    ∃ kept before after, lexemes cs = kept ++ before ∧ lexemes (cs ++ [c]) = kept ++ after ∧
      (∀ l ∈ before, l.isWord = false) ∧
      ∀ l ∈ after, l.isWord = false ∧ (l.isOpen = true → ∃ l' ∈ before, l'.isOpen = true) := by
  fun_induction lexemes cs with
  | case1 =>
    refine ⟨[], [], [.mark c], rfl, ?_, fun l hl => absurd hl List.not_mem_nil, fun l hl => ?_⟩
    · rw [List.nil_append, separator.lexemes_cons, lexemes]
      rfl
    · rw [List.mem_singleton.mp hl]
      exact ⟨rfl, fun h => by cases h⟩
  | case2 d rest ih =>
    obtain ⟨formed, hfollows⟩ := formed_cutLexeme d rest
    have htext := text_cutLexeme d rest
    generalize cutLexeme d rest = cut at *
    obtain ⟨lexeme, tail⟩ := cut
    dsimp only at *
    rw [← htext, List.append_assoc]
    by_cases hlast : tail = [] ∧ lexeme.isTrailing = true
    · obtain ⟨rfl, htrailing⟩ := hlast
      refine ⟨[], [lexeme], lexemes (lexeme.text ++ [c]), ?_, rfl, fun l hl => ?_, fun l hl => ?_⟩
      · rw [lexemes]
        rfl
      · rw [List.mem_singleton.mp hl]
        cases lexeme with
        | word => cases htrailing
        | _ => rfl
      · obtain ⟨hword, hopen⟩ := lexemes_trailing formed htrailing separator l hl
        exact ⟨hword, fun h => ⟨lexeme, List.mem_singleton.mpr rfl, hopen h⟩⟩
    · have hends : lexeme.EndsBefore (tail ++ [c]).head? := by
        cases tail with
        | nil =>
          refine separator.endsBefore (eq_false_of_ne_true fun h => hlast ⟨rfl, h⟩)
        | cons e tail => exact hfollows
      obtain ⟨kept, before, after, hbefore, hafter, hrest⟩ := ih
      refine ⟨lexeme :: kept, before, after, ?_, ?_, hrest⟩
      · rw [hbefore, List.cons_append]
      · rw [lexemes_text_append formed hends, hafter, List.cons_append]

theorem ClosesComments.snoc {cs : List Char} (closed : ClosesComments cs) {c : Char}
    (separator : IsSeparator c) : ClosesComments (cs ++ [c]) := by
  obtain ⟨kept, before, after, hbefore, hafter, -, hclosed⟩ := lexemes_snoc separator cs
  unfold ClosesComments at closed ⊢
  rw [hbefore] at closed
  rw [hafter]
  intro l hl
  rcases List.mem_append.mp hl with hl | hl
  · exact closed l (List.mem_append_left _ hl)
  · refine eq_false_of_ne_true fun hopen => ?_
    obtain ⟨l', hl', hopen'⟩ := (hclosed l hl).2 hopen
    rw [closed l' (List.mem_append_right _ hl')] at hopen'
    exact Bool.false_ne_true hopen'

/-- In a text without a slash there are no comments. -/
theorem isTrailing_of_not_mem {cs : List Char} (hslash : '/' ∉ cs) {lexeme : Lexeme}
    (h : lexeme ∈ lexemes cs) : lexeme.isTrailing = false := by
  have formed := formed_of_mem_lexemes h
  have hsub : ∀ c ∈ lexeme.text, c ∈ cs := by
    intro c hc
    rw [← flatMap_text_lexemes cs]
    exact List.mem_flatMap.mpr ⟨lexeme, h, hc⟩
  cases lexeme with
  | lineComment text =>
    obtain ⟨rest, rfl, -⟩ := formed
    exact absurd (hsub '/' List.mem_cons_self) hslash
  | openComment text =>
    obtain ⟨rest, rfl, -⟩ := formed
    exact absurd (hsub '/' List.mem_cons_self) hslash
  | _ => rfl

/-- **What stands before a separator**, without a comment, stays away from what comes after. -/
theorem lexemes_after {cs : List Char} (hslash : '/' ∉ cs) {c : Char} (separator : IsSeparator c)
    (next : List Char) : lexemes (cs ++ c :: next) = lexemes cs ++ .mark c :: lexemes next := by
  rw [lexemes_append, separator.lexemes_cons]
  intro last hlast
  exact separator.endsBefore (isTrailing_of_not_mem hslash (List.mem_of_getLast? hlast))

/-! ## 3. The references of texts put together -/

/-- How often some texts refer to a name, each cut on its own. -/
def totalReferences (name : String) (members : Bool) : List String → Nat
  | [] => 0
  | text :: rest => countReferences text name members + totalReferences name members rest

section References

variable {name : String} {members : Bool}

theorem referencesIn_eq_zero : ∀ {ls : List Lexeme} {afterPeriod : Bool},
    (∀ l ∈ ls, l.isWord = false) → referencesIn name members afterPeriod ls = 0
  | [], _, _ => rfl
  | lexeme :: rest, afterPeriod, h => by
    have hrest : referencesIn name members lexeme.isPeriod rest = 0 :=
      referencesIn_eq_zero fun l hl => h l (List.mem_cons_of_mem _ hl)
    have hfirst : lexeme.refersTo name members afterPeriod = false := by
      have hword := h lexeme List.mem_cons_self
      cases lexeme with
      | word => cases hword
      | _ => rfl
    rw [referencesIn, hrest, hfirst]
    rfl

theorem countReferences_empty : countReferences "" name members = 0 := by
  rw [countReferences_eq, show "".toList = [] from rfl, lexemes]
  rfl

/-- **A line in front of a text.** -/
theorem countReferences_line {line : String} (closed : ClosesComments line.toList)
    (rest : String) :
    countReferences (line ++ "\n" ++ rest) name members =
      countReferences line name members + countReferences rest name members := by
  simp only [countReferences_eq, String.toList_append, List.append_assoc]
  rw [show "\n".toList ++ rest.toList = '\n' :: rest.toList from rfl, lexemes_line closed,
    referencesIn_separator .newline]

/-- **A separator at the end** changes no reference. -/
theorem countReferences_snoc {c : Char} (separator : IsSeparator c) (text : String) :
    countReferences (text ++ String.singleton c) name members =
      countReferences text name members := by
  obtain ⟨kept, before, after, hbefore, hafter, hwords, hafterwords⟩ :=
    lexemes_snoc separator text.toList
  simp only [countReferences_eq, String.toList_append, String.toList_singleton]
  rw [hbefore, hafter, referencesIn_append, referencesIn_append, referencesIn_eq_zero hwords,
    referencesIn_eq_zero fun l hl => (hafterwords l hl).1]

/-- **What stands before a text**, up to a separator and without a comment, only adds references. -/
theorem countReferences_after {head : String} (hslash : '/' ∉ head.toList) {c : Char}
    (separator : IsSeparator c) (text : String) :
    countReferences (head ++ String.singleton c ++ text) name members =
      countReferences head name members + countReferences text name members := by
  simp only [countReferences_eq, String.toList_append, List.append_assoc, String.toList_singleton,
    List.singleton_append]
  rw [lexemes_after hslash separator, referencesIn_separator separator]

/-- **The references of lines** are those of each line. -/
theorem countReferences_intercalate : ∀ {lines : List String},
    (∀ line ∈ lines, ClosesComments line.toList) →
      countReferences ("\n".intercalate lines) name members = totalReferences name members lines
  | [], _ => countReferences_empty
  | [line], _ => by
    rw [String.intercalate_singleton]
    exact (Nat.add_zero _).symm
  | line :: next :: rest, closed => by
    rw [String.intercalate_cons_cons, countReferences_line (closed line List.mem_cons_self),
      countReferences_intercalate fun line h => closed line (List.mem_cons_of_mem _ h)]
    rfl

end References

end ShaderFabric
