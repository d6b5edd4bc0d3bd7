/-
# Every declaration is found, and each where it stands

What a declaration is can be said from the words of a text and what stands between them: the
keyword, a precision if one directly follows, a type and a name with ASCII blanks between them, and
then white space and a semicolon.  The declarations of a text are exactly these, in their order.

A search need not look at every word.  It may go on behind the name of a declaration it has found,
and it may end where too few words are left for another one: what it passes over declares nothing.
It may also cut the text where words end, since these are places of the text.

* `Spells` -- words of a text that start with a declaration;
* `searchWords` -- the search that passes over words, and stops where it would cut in a character;
* `lookAt_finds` -- at a keyword it does not stop, and finds what the lexemes behind it say;
* `mem_declarationsFrom_iff` -- a declaration is found if and only if words spell it;
* `searchWords_wordsFrom` -- the search loses none;
* `declarations_spelled` -- all of it for a whole text, and what is left without some declarations.
-/
import ShaderFabric.Proofs.Text.Gap

namespace ShaderFabric

/-! ## 1. What a declaration is -/

/-- Only blanks stand between two places. -/
def Between (cs : List Char) (start stop : Nat) : Prop :=
  ∃ gap, IsPart cs start stop gap ∧ ∀ c ∈ gap, isAsciiBlank c = true

/-- From a place on there is white space, and then the semicolon that ends at another one. -/
def Closes (cs : List Char) (place stop : Nat) : Prop :=
  ∃ gap, IsPart cs place stop (gap ++ [';']) ∧ ∀ c ∈ gap, isBlank c = true

/-- A word states the precision of the keyword it directly follows. -/
def IsPrecise (cs : List Char) (keyword word : Word) : Prop :=
  word.text ∈ precisions ∧ Between cs keyword.stop word.start

/-- The words after a keyword, with what stands before its type: a precision if one directly
follows, and otherwise the keyword. -/
inductive Headed (cs : List Char) (keyword : Word) : List Word → Word → List Word → Prop
  | precise {word : Word} {rest : List Word} (h : IsPrecise cs keyword word) :
    Headed cs keyword (word :: rest) word rest
  | plain {rest : List Word} (h : ∀ word, rest.head? = some word → ¬ IsPrecise cs keyword word) :
    Headed cs keyword rest keyword rest

/-- **Words of a text that start with a declaration.** -/
inductive Spells (cs : List Char) : List Word → Declaration → Prop
  | intro {keyword last typeWord nameWord : Word} {rest later : List Word} {stop : Nat}
    (text : keyword.text = "uniform") (member : keyword.afterPeriod = false)
    (headed : Headed cs keyword rest last (typeWord :: nameWord :: later))
    (type : Between cs last.stop typeWord.start)
    (name : Between cs typeWord.stop nameWord.start)
    (closes : Closes cs nameWord.stop stop) :
    Spells cs (keyword :: rest) ⟨typeWord.text, nameWord.text, keyword.start, stop⟩

theorem Spells.keyword {cs : List Char} {keyword : Word} {rest : List Word}
    {found : Declaration} (h : Spells cs (keyword :: rest) found) :
    keyword.text = "uniform" ∧ keyword.afterPeriod = false := by
  cases h with
  | intro text member => exact ⟨text, member⟩

/-! ## 2. A search that passes over words -/

/-- What a look at a keyword finds. -/
inductive Finding
  | declaration (found : Declaration) (taken : Nat)
  | nothing
  /-- There are too few words for a declaration. -/
  | tooFew

/-- Whether only blanks stand between two places; nothing, as in all of these checks, if the text
cannot be cut there. -/
def onlyBlanks (cs : List Char) (start stop : Nat) : Option Bool :=
  (slice? cs start stop).map fun gap => gap.all isAsciiBlank

/-- Where the semicolon ends that comes next, if it does. -/
def closing (cs : List Char) (place : Nat) : Option (Option Nat) :=
  (cutAt place cs).map fun cut =>
    if (cut.2.dropWhile isBlank).head? = some ';' then
      some (place + textSize (cut.2.takeWhile isBlank) + 1)
    else none

/-- A type and a name behind a word, and a semicolon. -/
def lookBehind (cs : List Char) (keyword last : Word) (taken : Nat) :
    List Word → Option Finding
  | typeWord :: nameWord :: _ => do
    let type ← onlyBlanks cs last.stop typeWord.start
    let name ← onlyBlanks cs typeWord.stop nameWord.start
    if type && name then
      match ← closing cs nameWord.stop with
      | some stop =>
        some (.declaration ⟨typeWord.text, nameWord.text, keyword.start, stop⟩ (taken + 2))
      | none => some .nothing
    else some .nothing
  | _ => some .tooFew

/-- Whether a word is the precision of a keyword. -/
def precise? (cs : List Char) (keyword word : Word) : Option Bool :=
  if word.text ∈ precisions then onlyBlanks cs keyword.stop word.start else some false

/-- A look at a keyword and the words after it. -/
def lookAt (cs : List Char) (keyword : Word) : List Word → Option Finding
  | [] => some .tooFew
  | word :: rest => do
    let precise ← precise? cs keyword word
    if precise then lookBehind cs keyword word 1 rest
    else lookBehind cs keyword keyword 0 (word :: rest)

/-- **The search**: behind a declaration it goes on after the name, and with too few words left it
ends.  It ends without an answer where a check would cut the text inside of a character. -/
def searchWords (cs : List Char) : List Word → Option (List Declaration)
  | [] => some []
  | word :: rest =>
    if word.text = "uniform" ∧ word.afterPeriod = false then
      (lookAt cs word rest).bind fun
        | .declaration found taken => (searchWords cs (rest.drop taken)).map (found :: ·)
        | .nothing => searchWords cs rest
        | .tooFew => some []
    else searchWords cs rest
termination_by ws => ws.length
decreasing_by
  all_goals
    simp only [List.length_drop, List.length_cons]
    omega

/-! ## 3. What the checks say -/

theorem onlyBlanks_eq_some {cs : List Char} {start stop : Nat} {blank : Bool}
    (h : onlyBlanks cs start stop = some blank) : Between cs start stop ↔ blank = true := by
  obtain ⟨gap, hgap, rfl⟩ := Option.map_eq_some_iff.mp h
  rw [slice?_eq_some_iff] at hgap
  rw [List.all_eq_true]
  refine ⟨?_, fun hall => ⟨gap, hgap, hall⟩⟩
  rintro ⟨other, hother, hall⟩
  rwa [hgap.unique hother]

theorem closing_eq_some {cs : List Char} {place : Nat} {found : Option Nat}
    (h : closing cs place = some found) (stop : Nat) :
    Closes cs place stop ↔ found = some stop := by
  obtain ⟨⟨front, back⟩, hcut, rfl⟩ := Option.map_eq_some_iff.mp h
  obtain ⟨rfl, rfl⟩ := cutAt_eq_some hcut
  dsimp only
  constructor
  · rintro ⟨gap, ⟨front', back', heq, hplace, rfl⟩, hgap⟩
    -- the text from the place on is the gap, the semicolon and what follows it
    have hback : back = gap ++ ([';'] ++ back') := by
      have hcut' := cutAt_append (gap ++ [';'] ++ back') front'
      rw [← heq, ← hplace, hcut] at hcut'
      rw [← List.append_assoc]
      exact (Prod.mk.inj (Option.some.inj hcut')).2
    have hnext : ∀ c, ([';'] ++ back').head? = some c → isBlank c = false := by
      rintro c hc
      cases hc
      decide
    rw [hback, takeWhile_run hgap hnext, dropWhile_run hgap hnext, textSize_append]
    exact if_pos rfl
  · intro hfound
    split at hfound
    · rename_i hhead
      cases hfound
      obtain ⟨rest, hrest⟩ := List.head?_eq_some_iff.mp hhead
      refine ⟨back.takeWhile isBlank, ⟨front, rest, ?_, rfl, ?_⟩,
        fun c hc => List.mem_takeWhile_imp hc⟩
      · rw [List.append_assoc, List.singleton_append, ← hrest, List.takeWhile_append_dropWhile]
      · rw [textSize_append, Nat.add_assoc]
        rfl
    · cases hfound

/-- **A look behind a word** that cuts at places finds what stands there. -/
theorem lookBehind_eq_some {cs : List Char} {keyword last : Word} {taken : Nat} {ws : List Word}
    {finding : Finding} (h : lookBehind cs keyword last taken ws = some finding)
    (found : Declaration) :
    (∃ typeWord nameWord later stop, ws = typeWord :: nameWord :: later ∧
      Between cs last.stop typeWord.start ∧ Between cs typeWord.stop nameWord.start ∧
      Closes cs nameWord.stop stop ∧
      found = ⟨typeWord.text, nameWord.text, keyword.start, stop⟩) ↔
        ∃ count, finding = .declaration found count := by
  match ws with
  | [] =>
    cases h
    simp
  | [_] =>
    cases h
    simp
  | typeWord :: nameWord :: later =>
    obtain ⟨type, htype, h⟩ := Option.bind_eq_some_iff.mp h
    obtain ⟨name, hname, h⟩ := Option.bind_eq_some_iff.mp h
    have htype' := onlyBlanks_eq_some htype
    have hname' := onlyBlanks_eq_some hname
    constructor
    · rintro ⟨typeWord', nameWord', later', stop, heq, hfirst, hsecond, hcloses, rfl⟩
      cases heq
      rw [htype'.mp hfirst, hname'.mp hsecond, Bool.and_self, if_pos rfl] at h
      obtain ⟨closed, hclosed, h⟩ := Option.bind_eq_some_iff.mp h
      rw [(closing_eq_some hclosed stop).mp hcloses] at h
      cases h
      exact ⟨_, rfl⟩
    · rintro ⟨count, rfl⟩
      split at h
      · rename_i hboth
        rw [Bool.and_eq_true] at hboth
        obtain ⟨closed, hclosed, h⟩ := Option.bind_eq_some_iff.mp h
        cases closed with
        | none => cases h
        | some stop =>
          cases h
          exact ⟨typeWord, nameWord, later, stop, rfl, htype'.mpr hboth.1, hname'.mpr hboth.2,
            (closing_eq_some hclosed stop).mpr rfl, rfl⟩
      · cases h

/-- A precision is taken if and only if it directly follows. -/
theorem headed_cons {cs : List Char} {keyword word last : Word} {rest ws : List Word}
    {precise : Bool} (h : precise? cs keyword word = some precise) :
    Headed cs keyword (word :: rest) last ws ↔
      (last, ws) = if precise then (word, rest) else (keyword, word :: rest) := by
  have hprecise : IsPrecise cs keyword word ↔ precise = true := by
    unfold IsPrecise
    unfold precise? at h
    split at h
    · rename_i hword
      rw [onlyBlanks_eq_some h]
      exact and_iff_right hword
    · rename_i hword
      cases h
      exact iff_of_false (fun hboth => hword hboth.1) Bool.false_ne_true
  constructor
  · rintro (hfollows | hnot)
    · rw [if_pos (hprecise.mp hfollows)]
    · rw [if_neg fun htrue => hnot word rfl (hprecise.mpr htrue)]
  · intro heq
    split at heq
    · rename_i htrue
      cases heq
      exact .precise (hprecise.mpr htrue)
    · rename_i hfalse
      cases heq
      refine .plain fun other hother hfollows => hfalse ?_
      cases hother
      exact hprecise.mp hfollows

/-- **A look at a keyword** that cuts at places finds what its words declare. -/
theorem lookAt_eq_some {cs : List Char} {keyword : Word} {rest : List Word} {finding : Finding}
    (h : lookAt cs keyword rest = some finding) (text : keyword.text = "uniform")
    (member : keyword.afterPeriod = false) (found : Declaration) :
    Spells cs (keyword :: rest) found ↔ ∃ count, finding = .declaration found count := by
  cases rest with
  | nil =>
    cases h
    refine ⟨?_, fun ⟨_, heq⟩ => by cases heq⟩
    rintro ⟨-, -, headed, -, -, -⟩
    cases headed
  | cons word rest =>
    obtain ⟨precise, hprecise, h⟩ := Option.bind_eq_some_iff.mp h
    have hbehind : ∃ last ws taken, ((last, ws) = if precise then (word, rest) else
        (keyword, word :: rest)) ∧ lookBehind cs keyword last taken ws = some finding := by
      cases precise
      · exact ⟨keyword, word :: rest, 0, rfl, h⟩
      · exact ⟨word, rest, 1, rfl, h⟩
    obtain ⟨last, ws, taken, hlast, hfinding⟩ := hbehind
    rw [← lookBehind_eq_some hfinding]
    constructor
    · rintro ⟨-, -, headed, hfirst, hsecond, hcloses⟩
      cases ((headed_cons hprecise).mp headed).trans hlast.symm
      exact ⟨_, _, _, _, rfl, hfirst, hsecond, hcloses, rfl⟩
    · rintro ⟨typeWord, nameWord, later, stop, rfl, hfirst, hsecond, hcloses, rfl⟩
      exact .intro text member ((headed_cons hprecise).mpr hlast) hfirst hsecond hcloses

/-! ## 4. What comes next, by the checks -/

namespace CutFrom

variable {cs : List Char} {place : Nat} {ls : List Lexeme}

/-- **The next word of the lexemes** is the first word of the text, if the text between is blank. -/
theorem nextWord_eq (h : CutFrom cs place ls) {afterPeriod : Bool} {word : Word}
    {later : List Word} (hwords : wordsFrom place afterPeriod ls = word :: later) :
    ∃ rest blank, CutFrom cs word.stop rest ∧ later = wordsFrom word.stop false rest ∧
      onlyBlanks cs place word.start = some blank ∧
      nextWord place ls = if blank = true then some (word.text, word.stop, rest) else none := by
  obtain ⟨gap, text, rest, rfl, hgap, htext, hstart, hstop, hlater⟩ := wordsFrom_eq_cons hwords
  have hend : word.stop = place + textSize (textOf gap) + textSize text := by rw [hstop, hstart]
  have hrest : CutFrom cs word.stop rest := by
    have hbehind := (h.behind gap).behind [.word text]
    rw [textOf_cons, textOf_nil, List.append_nil] at hbehind
    rwa [hend]
  have hbetween : IsPart cs place word.start (textOf gap) := by
    obtain ⟨-, front, rfl, rfl⟩ := h
    exact ⟨front, textOf (.word text :: rest), by rw [textOf_append], rfl, hstart⟩
  refine ⟨rest, (textOf gap).all isAsciiBlank, hrest, hlater, ?_, ?_⟩
  · rw [onlyBlanks, slice?_eq_some_iff.mpr hbetween]
    rfl
  · have hformed : ∀ l ∈ gap, l.Formed := fun l hl =>
      h.formed l (List.mem_append_left _ hl)
    rw [nextWord_wordless hformed hgap, htext, hend]

/-- The semicolon is the next one of the lexemes. -/
theorem closing_eq (h : CutFrom cs place ls) :
    closing cs place = some (nextSemicolon place ls) := by
  have hformed := h.formed
  obtain ⟨-, front, rfl, rfl⟩ := h
  rw [closing, cutAt_append, nextSemicolon_eq hformed]
  rfl

end CutFrom

/-! ## 5. A look agrees with the lexemes -/

/-- A type and a name, and a semicolon. -/
def typeAndName (taken : Nat) (rest : List Lexeme) : Option (String × String × Nat) := do
  let (typeName, taken, rest) ← nextWord taken rest
  let (name, taken, rest) ← nextWord taken rest
  let stop ← nextSemicolon taken rest
  return (typeName, name, stop)

theorem declarationAfter_eq (taken : Nat) (rest : List Lexeme) :
    declarationAfter taken rest =
      typeAndName (skipPrecision taken rest).1 (skipPrecision taken rest).2 := rfl

/-- **A look at a keyword agrees** with what is found in the lexemes behind it; `ws` are the words
there. -/
inductive Finds (cs : List Char) (start : Nat) (ws : List Word) :
    Option (String × String × Nat) → Option Finding → Prop
  /-- With the words that are taken it has passed over the lexemes. -/
  | declaration {typeName name : String} {stop taken : Nat} {after : List Lexeme}
    (cut : CutFrom cs stop after) (words : ws.drop taken = wordsFrom stop false after) :
    Finds cs start ws (some (typeName, name, stop))
      (some (.declaration ⟨typeName, name, start, stop⟩ taken))
  | nothing : Finds cs start ws none (some .nothing)
  | tooFew (h : ws.length ≤ 2) : Finds cs start ws none (some .tooFew)

section Look

variable {cs : List Char} {keyword last : Word} {ls : List Lexeme} {ws : List Word} {taken : Nat}

/-- Fewer than two words behind a word are too few. -/
theorem finds_tooFew (htaken : taken ≤ 1) (hfew : (ws.drop taken).length ≤ 1) {start : Nat} :
    Finds cs start ws none (some .tooFew) := by
  rw [List.length_drop] at hfew
  exact .tooFew (by omega)

theorem lookBehind_finds (h : CutFrom cs last.stop ls) (htaken : taken ≤ 1)
    (hws : ws.drop taken = wordsFrom last.stop false ls) :
    Finds cs keyword.start ws (typeAndName last.stop ls)
      (lookBehind cs keyword last taken (wordsFrom last.stop false ls)) := by
  cases hfirst : wordsFrom last.stop false ls with
  | nil =>
    rw [typeAndName, nextWord_of_wordsFrom_nil hfirst]
    refine finds_tooFew htaken ?_
    rw [hws, hfirst]
    exact Nat.zero_le _
  | cons typeWord rest =>
    obtain ⟨ls₁, type, h₁, hrest, htype, hnext₁⟩ := h.nextWord_eq hfirst
    rw [typeAndName, hnext₁]
    cases hsecond : rest with
    | nil =>
      have hnone : nextWord typeWord.stop ls₁ = none :=
        nextWord_of_wordsFrom_nil (hrest.symm.trans hsecond)
      have hfew : (ws.drop taken).length ≤ 1 := by
        rw [hws, hfirst, hsecond]
        exact Nat.le_refl _
      cases type
      · exact finds_tooFew htaken hfew
      · simp only [if_true, Option.bind_eq_bind, Option.bind_some, hnone, Option.bind_none]
        exact finds_tooFew htaken hfew
    | cons nameWord later =>
      obtain ⟨ls₂, name, h₂, hlater, hname, hnext₂⟩ := h₁.nextWord_eq (hrest.symm.trans hsecond)
      simp only [lookBehind, htype, hname, h₂.closing_eq, Option.bind_eq_bind, Option.bind_some]
      cases type
      · exact .nothing
      cases name
      · simp only [if_true, Option.bind_some, hnext₂]
        exact .nothing
      simp only [if_true, Option.bind_some, hnext₂, Bool.and_self]
      cases hstop : nextSemicolon nameWord.stop ls₂ with
      | none => exact .nothing
      | some stop =>
        obtain ⟨after, hafter, hwords⟩ := h₂.behind_semicolon hstop false
        refine .declaration hafter ?_
        rw [← List.drop_drop, hws, hfirst, hsecond, ← hwords, ← hlater]
        rfl

/-- **A look at a keyword** never cuts inside of a character, and finds what the lexemes say. -/
theorem lookAt_finds (h : CutFrom cs keyword.stop ls) :
    Finds cs keyword.start (wordsFrom keyword.stop false ls) (declarationAfter keyword.stop ls)
      (lookAt cs keyword (wordsFrom keyword.stop false ls)) := by
  rw [declarationAfter_eq]
  cases hfirst : wordsFrom keyword.stop false ls with
  | nil =>
    have hnone : ∀ taken, nextWord taken ls = none := fun _ => nextWord_of_wordsFrom_nil hfirst
    simp only [skipPrecision, typeAndName, hnone]
    exact .tooFew (Nat.zero_le _)
  | cons word rest =>
    obtain ⟨ls₁, blank, h₁, hrest, hblank, hnext⟩ := h.nextWord_eq hfirst
    by_cases hprecise : word.text ∈ precisions ∧ blank = true
    · obtain ⟨hword, rfl⟩ := hprecise
      have hskip : skipPrecision keyword.stop ls = (word.stop, ls₁) := by
        simp only [skipPrecision, hnext, if_true, hword]
      have hlook : lookAt cs keyword (word :: rest) = lookBehind cs keyword word 1 rest := by
        rw [lookAt, precise?, if_pos hword, hblank]
        rfl
      rw [hskip, hlook, hrest]
      exact lookBehind_finds h₁ (Nat.le_refl 1) rfl
    · have hskip : skipPrecision keyword.stop ls = (keyword.stop, ls) := by
        rw [skipPrecision, hnext]
        cases blank
        · rfl
        · simp only [if_true, show word.text ∉ precisions from fun hword => hprecise ⟨hword, rfl⟩,
            if_false]
      have hlook : lookAt cs keyword (word :: rest) =
          lookBehind cs keyword keyword 0 (word :: rest) := by
        have hnot : precise? cs keyword word = some false := by
          unfold precise?
          split
          · rename_i hword
            rw [hblank, eq_false_of_ne_true fun htrue => hprecise ⟨hword, htrue⟩]
          · rfl
        rw [lookAt, hnot]
        rfl
      rw [hskip, hlook, ← hfirst]
      exact lookBehind_finds h (Nat.zero_le 1) rfl

end Look

/-! ## 6. What is found -/

theorem eq_uniformWord_iff {text : List Char} :
    String.ofList text = "uniform" ↔ text = uniformWord := by
  rw [← String.toList_inj, String.toList_ofList]
  rfl

/-- What a look finds that agrees with the lexemes. -/
theorem Finds.finding {cs : List Char} {start : Nat} {ws : List Word}
    {result : Option (String × String × Nat)} {looked : Option Finding}
    (h : Finds cs start ws result looked) : ∃ finding, looked = some finding ∧
      ∀ found, (∃ count, finding = .declaration found count) ↔
        result = some (found.typeName, found.name, found.stop) ∧ start = found.start := by
  cases h with
  | @declaration typeName name stop taken =>
    refine ⟨_, rfl, fun found => ⟨?_, ?_⟩⟩
    · rintro ⟨count, heq⟩
      cases heq
      exact ⟨rfl, rfl⟩
    · rintro ⟨heq, rfl⟩
      cases heq
      exact ⟨taken, rfl⟩
  | nothing =>
    refine ⟨_, rfl, fun found => iff_of_false ?_ ?_⟩
    · rintro ⟨count, heq⟩
      cases heq
    · rintro ⟨heq, -⟩
      cases heq
  | tooFew =>
    refine ⟨_, rfl, fun found => iff_of_false ?_ ?_⟩
    · rintro ⟨count, heq⟩
      cases heq
    · rintro ⟨heq, -⟩
      cases heq

/-- The words from a keyword on declare what is found in the lexemes behind it. -/
theorem declares_iff {cs : List Char} {keyword : Word} {rest : List Lexeme}
    (h : CutFrom cs keyword.stop rest) (text : keyword.text = "uniform")
    (member : keyword.afterPeriod = false) (found : Declaration) :
    Spells cs (keyword :: wordsFrom keyword.stop false rest) found ↔
      declarationAfter keyword.stop rest = some (found.typeName, found.name, found.stop) ∧
        keyword.start = found.start := by
  obtain ⟨finding, hlook, hfinding⟩ := (lookAt_finds h).finding
  rw [lookAt_eq_some hlook text member, hfinding]

/-- A declaration is found at the first lexeme or behind it. -/
theorem mem_declarationsFrom_cons {found : Declaration} {lexeme : Lexeme} {rest : List Lexeme}
    {place : Nat} {afterPeriod : Bool} :
    found ∈ declarationsFrom place afterPeriod (lexeme :: rest) ↔
      ((lexeme = .word uniformWord ∧ afterPeriod = false) ∧
        declarationAfter (place + lexeme.byteSize) rest =
          some (found.typeName, found.name, found.stop) ∧ place = found.start) ∨
      found ∈ declarationsFrom (place + lexeme.byteSize) lexeme.isPeriod rest := by
  rw [declarationsFrom]
  split
  · rename_i hkeyword
    rw [Bool.not_eq_true'] at hkeyword
    rw [and_iff_right hkeyword]
    split
    · rename_i typeName name last hafter
      rw [List.mem_cons, hafter]
      refine or_congr_left ⟨?_, ?_⟩
      · rintro rfl
        exact ⟨rfl, rfl⟩
      · rintro ⟨heq, rfl⟩
        cases heq
        rfl
    · rename_i hafter
      rw [hafter]
      exact (or_iff_right fun h => by cases h.1).symm
  · rename_i hkeyword
    rw [Bool.not_eq_true'] at hkeyword
    exact (or_iff_right fun h => hkeyword h.1).symm

/-- Along the lexemes: **a declaration is found if and only if words declare it.** -/
theorem mem_declarationsFrom_iff {cs : List Char} {found : Declaration} : ∀ {ls : List Lexeme}
    {place : Nat} {afterPeriod : Bool}, CutFrom cs place ls →
      (found ∈ declarationsFrom place afterPeriod ls ↔
        ∃ ws, ws <:+ wordsFrom place afterPeriod ls ∧ Spells cs ws found)
  | [], place, afterPeriod, _ => by
    refine iff_of_false List.not_mem_nil ?_
    rintro ⟨ws, hws, hdeclares⟩
    cases List.suffix_nil.mp hws
    cases hdeclares
  | lexeme :: rest, place, afterPeriod, h => by
    have hrest := h.tail
    rw [mem_declarationsFrom_cons, mem_declarationsFrom_iff hrest]
    by_cases hword : ∃ text, lexeme = .word text
    · obtain ⟨text, rfl⟩ := hword
      rw [wordsFrom]
      simp only [List.suffix_cons_iff, or_and_right, exists_or, exists_eq_left]
      refine or_congr_left ?_
      constructor
      · rintro ⟨⟨hkeyword, hmember⟩, hfound⟩
        have htext := eq_uniformWord_iff.mpr (Lexeme.word.inj hkeyword)
        exact (declares_iff hrest htext hmember found).mpr hfound
      · intro hdeclares
        obtain ⟨htext, hmember⟩ := hdeclares.keyword
        refine ⟨⟨congrArg Lexeme.word (eq_uniformWord_iff.mp htext), hmember⟩, ?_⟩
        exact (declares_iff hrest htext hmember found).mp hdeclares
    · rw [or_iff_right fun hfirst => hword ⟨_, hfirst.1.1⟩,
        wordsFrom_of_ne_word fun text heq => hword ⟨text, heq⟩]

theorem Spells.three_le {cs : List Char} {ws : List Word} {found : Declaration}
    (h : Spells cs ws found) : 3 ≤ ws.length := by
  obtain ⟨-, -, headed, -, -, -⟩ := h
  cases headed <;> simp

/-- Where there are too few words nothing is found. -/
theorem declarationsFrom_eq_nil {cs : List Char} {ls : List Lexeme} {place : Nat}
    {afterPeriod : Bool} (h : CutFrom cs place ls)
    (hfew : (wordsFrom place afterPeriod ls).length ≤ 2) :
    declarationsFrom place afterPeriod ls = [] := by
  refine List.eq_nil_iff_forall_not_mem.mpr fun found hfound => ?_
  obtain ⟨ws, hsuffix, hdeclares⟩ := (mem_declarationsFrom_iff h).mp hfound
  have hthree := hdeclares.three_le
  have hle := hsuffix.length_le
  omega

/-! ## 7. The search finds all -/

section Keyword

variable {place : Nat} {rest : List Lexeme}

theorem declarationsFrom_of_some {typeName name : String} {stop : Nat}
    (h : declarationAfter (place + (Lexeme.word uniformWord).byteSize) rest =
      some (typeName, name, stop)) :
    declarationsFrom place false (.word uniformWord :: rest) =
      ⟨typeName, name, place, stop⟩ ::
        declarationsFrom (place + (Lexeme.word uniformWord).byteSize) false rest := by
  rw [declarationsFrom, if_pos ⟨rfl, rfl⟩, h]
  rfl

theorem declarationsFrom_of_none
    (h : declarationAfter (place + (Lexeme.word uniformWord).byteSize) rest = none) :
    declarationsFrom place false (.word uniformWord :: rest) =
      declarationsFrom (place + (Lexeme.word uniformWord).byteSize) false rest := by
  rw [declarationsFrom, if_pos ⟨rfl, rfl⟩, h]
  rfl

end Keyword

/-- Along the lexemes: **the search never cuts inside of a character, and loses no declaration.** -/
theorem searchWords_wordsFrom {cs : List Char} : ∀ {ls : List Lexeme} {place : Nat},
    CutFrom cs place ls → ∀ afterPeriod,
      searchWords cs (wordsFrom place afterPeriod ls) = some (declarationsFrom place afterPeriod ls)
  | [], place, _, afterPeriod => by rw [wordsFrom, searchWords, declarationsFrom]
  | lexeme :: rest, place, h, afterPeriod => by
    have hrest := h.tail
    have hlater := searchWords_wordsFrom hrest lexeme.isPeriod
    by_cases hword : ∃ text, lexeme = .word text
    · obtain ⟨text, rfl⟩ := hword
      by_cases hkeyword : text = uniformWord ∧ afterPeriod = false
      · obtain ⟨rfl, rfl⟩ := hkeyword
        have hfinds := @lookAt_finds cs ⟨String.ofList uniformWord, place,
          place + (Lexeme.word uniformWord).byteSize, false⟩ rest hrest
        rw [wordsFrom, searchWords, if_pos ⟨eq_uniformWord_iff.mpr rfl, rfl⟩]
        dsimp only at hfinds ⊢
        generalize hresult : declarationAfter (place + (Lexeme.word uniformWord).byteSize) rest =
          result at hfinds
        generalize lookAt cs _ _ = looked at hfinds ⊢
        cases hfinds with
        | @declaration typeName name stop taken after cut hwords =>
          -- the search goes on behind the semicolon, and no lexeme before it declares anything
          obtain ⟨inside, behind, rfl, hdeclares, rfl⟩ := declarationAfter_eq_some hresult
          cases cut.unique (hrest.behind inside)
          have hbehind := searchWords_wordsFrom cut false
          simp only [Option.bind_some, hwords, hbehind, declarationsFrom_of_some hresult,
            declarationsFrom_inside hdeclares, Option.map_some]
        | nothing =>
          rw [declarationsFrom_of_none hresult]
          exact hlater
        | tooFew hfew => rw [declarationsFrom_of_none hresult, declarationsFrom_eq_nil hrest hfew,
            Option.bind_some]
      · have hword : ¬ (String.ofList text = "uniform" ∧ afterPeriod = false) := by
          rwa [eq_uniformWord_iff]
        have hlexeme : ¬ (Lexeme.word text = .word uniformWord ∧ (!afterPeriod) = true) := by
          rwa [Lexeme.word.injEq, Bool.not_eq_true']
        rw [wordsFrom, searchWords, if_neg hword, declarationsFrom, if_neg hlexeme]
        exact hlater
    · rw [wordsFrom_of_ne_word fun text heq => hword ⟨text, heq⟩,
        declarationsFrom_skip fun heq => absurd ⟨_, heq⟩ hword, hlater, byteSize_eq_textSize]
termination_by ls => ls.length
decreasing_by
  all_goals
    simp only [*, List.length_cons, List.length_append]
    omega

/-! ## 8. The declarations of a text -/

/-- The whole text from its first byte on. -/
theorem cutFrom_lexemes (source : String) : CutFrom source.toList 0 (lexemes source.toList) := by
  refine ⟨isCut_lexemes _, [], ?_, rfl⟩
  rw [textOf, flatMap_text_lexemes, List.nil_append]

/-- **Declarations that are taken out**, any of them and each once, are cut off at places, and their
bytes are all that is missing. -/
theorem joinKept_removeSpans {source : String} {picked : List Declaration}
    (h : picked.Sublist (declarations source)) :
    joinKept source.toList 0 (picked.map Declaration.span) =
        some (removeSpans (picked.map Declaration.span) source).toList ∧
      utf8 (removeSpans (picked.map Declaration.span) source) =
        bytesOutside (picked.map Declaration.span) 0 (utf8 source) := by
  obtain ⟨_, hall⟩ := exists_cut_declarations source
  obtain ⟨short, hcut⟩ := hall.sublist h
  have hshort : (removeSpans (picked.map Declaration.span) source).toList = short := by
    rw [removeSpans, String.toList_ofList]
    exact removeFrom_of_cut hcut (fun _ hspan => .inr hspan) fun _ => List.mem_map_of_mem
  refine ⟨?_, utf8_removeSpans fun span hspan => ?_⟩
  · rw [hshort]
    exact joinKept_of_cut hcut [] rfl
  · obtain ⟨found, hfound, rfl⟩ := List.mem_map.mp hspan
    obtain ⟨-, part, hpart⟩ := hcut.isPart [] rfl found hfound
    exact hpart.isPlace

/-- **The declarations of a text** are exactly what its words spell.  The search that passes over
words finds them all, and cuts the text at places only.  They are parts of the text, in its order
and apart from each other, and to take some of them out leaves all other bytes. -/
theorem declarations_spelled (source : String) :
    searchWords source.toList (words source) = some (declarations source) ∧
      (∀ found, found ∈ declarations source ↔
        ∃ ws, ws <:+ words source ∧ Spells source.toList ws found) ∧
      (∀ found ∈ declarations source, found.start < found.stop ∧
        found.stop ≤ source.utf8ByteSize ∧
        ∃ part, IsPart source.toList found.start found.stop part) ∧
      (declarations source).Pairwise (fun earlier later => earlier.stop ≤ later.start) ∧
      ∀ picked : List Declaration, picked.Sublist (declarations source) →
        joinKept source.toList 0 (picked.map Declaration.span) =
            some (removeSpans (picked.map Declaration.span) source).toList ∧
          utf8 (removeSpans (picked.map Declaration.span) source) =
            bytesOutside (picked.map Declaration.span) 0 (utf8 source) := by
  obtain ⟨short, hcut⟩ := exists_cut_declarations source
  refine ⟨searchWords_wordsFrom (cutFrom_lexemes source) false,
    fun found => mem_declarationsFrom_iff (cutFrom_lexemes source), fun found hfound => ?_,
    hcut.pairwise, fun picked hpicked => joinKept_removeSpans hpicked⟩
  obtain ⟨hlt, part, hpart⟩ := hcut.isPart [] rfl found hfound
  refine ⟨hlt, ?_, part, hpart⟩
  rw [utf8ByteSize_eq_textSize]
  exact hpart.stop_le

namespace Example

/-- A keyword in place of a type, a line end of two characters, white space beyond ASCII, and too
few words at the end. -/
def overlapping : String :=
  "é uniform uniform float x;\r\nuniform highp\tvec2 y\u00a0; uniform lowp vec3"

/-- Both are found, each from its own keyword; one is taken out, and the other one stays. -/
theorem overlapping_spelled :
    declarations overlapping = [⟨"float", "x", 11, 27⟩, ⟨"vec2", "y", 29, 52⟩] ∧
      searchWords overlapping.toList (words overlapping) = some (declarations overlapping) ∧
      [⟨"vec2", "y", 29, 52⟩].Sublist (declarations overlapping) ∧
      joinKept overlapping.toList 0 [(29, 52)] =
        some "é uniform uniform float x;\r\n uniform lowp vec3".toList := by
  have hfound : declarations overlapping = [⟨"float", "x", 11, 27⟩, ⟨"vec2", "y", 29, 52⟩] := by
    decide +kernel
  obtain ⟨hsearch, -, -, -, hremoved⟩ := declarations_spelled overlapping
  have hpicked : [⟨"vec2", "y", 29, 52⟩].Sublist (declarations overlapping) := by
    rw [hfound]
    exact .cons _ (List.Sublist.refl _)
  refine ⟨hfound, hsearch, hpicked, (hremoved _ hpicked).1.trans ?_⟩
  decide +kernel

end Example

end ShaderFabric
