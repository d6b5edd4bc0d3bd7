/-
# Declarations that are taken out of a text

A declaration is found from its keyword on, so declarations are looked for at every lexeme, those of
a declaration that has been found included.  None is found there: a keyword inside of a declaration
has fewer than two words before the semicolon.  So the declarations of a text stand apart, and to
remove some of them leaves all that stands between.

* `IsDeclaration` -- lexemes that are one declaration and nothing else;
* `declarationAfter_eq_some` -- what has been found is a declaration (`declarationsFrom_inside`:
  with no other one in it);
* `Cut` -- a text and what is left of it without some declarations;
* `cut_removeSpans` -- removal leaves exactly that;
* `mem_declarations_of_settled` -- a declaration behind a text that ends with its lexemes is found.
-/
import ShaderFabric.Proofs.Text.Substitution
import ShaderFabric.Text.Declaration

namespace ShaderFabric

/-! ## 1. Sizes -/

/-- How many bytes characters take. -/
def textSize (cs : List Char) : Nat := cs.foldr (fun c size => c.utf8Size + size) 0

theorem textSize_append (cs ds : List Char) : textSize (cs ++ ds) = textSize cs + textSize ds := by
  induction cs with
  | nil => simp [textSize]
  | cons c rest ih =>
    simp only [textSize, List.cons_append, List.foldr_cons] at ih ⊢
    omega

theorem utf8ByteSize_ofList : ∀ cs : List Char, (String.ofList cs).utf8ByteSize = textSize cs
  | [] => rfl
  | c :: rest => by
    rw [String.ofList_cons, String.utf8ByteSize_append, utf8ByteSize_ofList rest,
      String.utf8ByteSize_singleton]
    rfl

theorem utf8ByteSize_eq_textSize (text : String) : text.utf8ByteSize = textSize text.toList := by
  rw [← utf8ByteSize_ofList, String.ofList_toList]

/-- The text of lexemes. -/
def textOf (ls : List Lexeme) : List Char := ls.flatMap Lexeme.text

@[simp] theorem textOf_nil : textOf [] = [] := rfl

@[simp] theorem textOf_cons (lexeme : Lexeme) (rest : List Lexeme) :
    textOf (lexeme :: rest) = lexeme.text ++ textOf rest := List.flatMap_cons

@[simp] theorem textOf_append (ls ms : List Lexeme) : textOf (ls ++ ms) = textOf ls ++ textOf ms :=
  List.flatMap_append

theorem byteSize_eq_textSize (lexeme : Lexeme) : lexeme.byteSize = textSize lexeme.text := rfl

/-! ## 2. Parts of what has been cut -/

theorem Lexeme.Formed.text_ne_nil {lexeme : Lexeme} (formed : lexeme.Formed) :
    lexeme.text ≠ [] := by
  cases lexeme with
  | mark c => exact List.cons_ne_nil c []
  | word text =>
    obtain ⟨c, rest, rfl, -⟩ := formed
    exact List.cons_ne_nil c rest
  | number text =>
    obtain ⟨c, rest, rfl, -⟩ := formed
    exact List.cons_ne_nil c rest
  | lineComment text =>
    obtain ⟨rest, rfl, -⟩ := formed
    exact List.cons_ne_nil _ _
  | blockComment text =>
    obtain ⟨inner, rfl, -⟩ := formed
    exact List.cons_ne_nil _ _
  | openComment text =>
    obtain ⟨inner, rfl, -⟩ := formed
    exact List.cons_ne_nil _ _

/-- Lexemes that a text is cut into. -/
def IsCut (ls : List Lexeme) : Prop := lexemes (textOf ls) = ls

theorem isCut_lexemes (cs : List Char) : IsCut (lexemes cs) := by
  unfold IsCut textOf
  rw [flatMap_text_lexemes]

/-- The first of the lexemes that a text is cut into ends before the others. -/
theorem isCut_cons {lexeme : Lexeme} {rest : List Lexeme} (h : IsCut (lexeme :: rest)) :
    lexeme.Formed ∧ lexeme.EndsBefore (textOf rest).head? ∧ IsCut rest := by
  have formed : lexeme.Formed := formed_of_mem_lexemes (h ▸ List.mem_cons_self)
  obtain ⟨c, tail, htext⟩ := List.exists_cons_of_ne_nil formed.text_ne_nil
  have hcut : (cutLexeme c (tail ++ textOf rest)).1 = lexeme ∧
      lexemes (cutLexeme c (tail ++ textOf rest)).2 = rest := by
    have h' : lexemes (c :: (tail ++ textOf rest)) = lexeme :: rest := by
      rw [← List.cons_append, ← htext]
      exact h
    rw [lexemes_cons] at h'
    exact List.cons.inj h'
  have hrest : (cutLexeme c (tail ++ textOf rest)).2 = textOf rest := by
    have hall := text_cutLexeme c (tail ++ textOf rest)
    rw [hcut.1, htext, List.cons_append] at hall
    exact List.append_cancel_left (List.cons.inj hall).2
  have hends := (formed_cutLexeme c (tail ++ textOf rest)).2
  rw [hcut.1, hrest] at hends
  refine ⟨formed, hends, ?_⟩
  rw [hrest] at hcut
  exact hcut.2

theorem IsCut.back : ∀ {ls ms : List Lexeme}, IsCut (ls ++ ms) → IsCut ms
  | [], _, h => h
  | _ :: _, _, h => IsCut.back (isCut_cons h).2.2

/-- **Lexemes in front of others** are cut like that on their own. -/
theorem IsCut.front : ∀ {ls ms : List Lexeme}, IsCut (ls ++ ms) → IsCut ls
  | [], _, _ => by
    unfold IsCut textOf
    rw [List.flatMap_nil, lexemes]
  | lexeme :: rest, ms, h => by
    obtain ⟨formed, hends, hrest⟩ : _ ∧ _ ∧ IsCut (rest ++ ms) := isCut_cons h
    have hfirst : lexeme.EndsBefore (textOf rest).head? := by
      cases hhead : (textOf rest).head? with
      | none => exact lexeme.endsBefore_none
      | some c =>
        rw [textOf_append, List.head?_append, hhead] at hends
        exact hends
    unfold IsCut
    rw [textOf_cons, lexemes_text_append formed hfirst, IsCut.front hrest]

/-! ## 3. Gaps -/

/-- Lexemes that are blanks. -/
def IsGap (p : Char → Bool) (ls : List Lexeme) : Prop := ∀ l ∈ ls, ∃ c, l = .mark c ∧ p c = true

section Gaps

variable {p : Char → Bool} {gap : List Lexeme}

theorem isGap_nil : IsGap p [] := fun _ h => absurd h List.not_mem_nil

theorem IsGap.cons {c : Char} (hc : p c = true) (h : IsGap p gap) : IsGap p (.mark c :: gap) :=
  List.forall_mem_cons.mpr ⟨⟨c, rfl, hc⟩, h⟩

end Gaps

theorem textSize_mark (c : Char) : textSize (Lexeme.mark c).text = c.utf8Size := rfl

/-- A word behind a gap is the next word. -/
theorem nextWord_gap {text : List Char} {rest : List Lexeme} : ∀ {gap : List Lexeme},
    IsGap isAsciiBlank gap → ∀ taken, nextWord taken (gap ++ .word text :: rest) =
      some (String.ofList text, taken + textSize (textOf (gap ++ [.word text])), rest)
  | [], _, taken => by simp [nextWord, byteSize_eq_textSize]
  | lexeme :: gap, h, taken => by
    obtain ⟨⟨c, rfl, hc⟩, hgap⟩ := List.forall_mem_cons.mp h
    rw [List.cons_append, nextWord, if_pos hc, nextWord_gap hgap, List.cons_append, textOf_cons,
      textSize_append, textSize_mark, Nat.add_assoc]

/-- **The next word** stands behind a gap. -/
theorem nextWord_eq_some {word : String} {last : Nat} {rest : List Lexeme} :
    ∀ {ls : List Lexeme} {taken : Nat}, nextWord taken ls = some (word, last, rest) →
      ∃ gap, IsGap isAsciiBlank gap ∧ ls = gap ++ .word word.toList :: rest ∧
        last = taken + textSize (textOf (gap ++ [.word word.toList]))
  | [], _, h => by simp [nextWord] at h
  | lexeme :: ls, taken, h => by
    cases lexeme with
    | word text =>
      simp only [nextWord, Option.some.injEq, Prod.mk.injEq] at h
      obtain ⟨rfl, rfl, rfl⟩ := h
      refine ⟨[], isGap_nil, ?_, ?_⟩
      · rw [String.toList_ofList]
        rfl
      · simp [byteSize_eq_textSize]
    | mark c =>
      simp only [nextWord] at h
      split at h
      · rename_i hc
        obtain ⟨gap, hgap, rfl, hlast⟩ := nextWord_eq_some h
        refine ⟨.mark c :: gap, hgap.cons hc, rfl, ?_⟩
        rw [hlast, List.cons_append, textOf_cons, textSize_append, textSize_mark, Nat.add_assoc]
      · cases h
    | number | lineComment | blockComment | openComment => cases h

/-- **A semicolon that comes next** stands behind a gap. -/
theorem nextSemicolon_eq_some {last : Nat} : ∀ {ls : List Lexeme} {taken : Nat},
    nextSemicolon taken ls = some last → ∃ gap rest, IsGap isBlank gap ∧
      ls = gap ++ .mark ';' :: rest ∧ last = taken + textSize (textOf (gap ++ [.mark ';']))
  | [], _, h => by simp [nextSemicolon] at h
  | lexeme :: ls, taken, h => by
    cases lexeme with
    | mark c =>
      simp only [nextSemicolon] at h
      split at h
      · rename_i hc
        obtain ⟨gap, rest, hgap, rfl, hlast⟩ := nextSemicolon_eq_some h
        refine ⟨.mark c :: gap, rest, hgap.cons hc, rfl, ?_⟩
        rw [hlast, List.cons_append, textOf_cons, textSize_append, textSize_mark, Nat.add_assoc]
      · split at h
        · rename_i hc
          cases hc
          cases h
          exact ⟨[], ls, isGap_nil, rfl, rfl⟩
        · cases h
    | word | number | lineComment | blockComment | openComment => cases h

/-- No word comes next where only blanks stand before a semicolon. -/
theorem nextWord_semicolon {rest : List Lexeme} : ∀ {gap : List Lexeme}, IsGap isBlank gap →
    ∀ taken, nextWord taken (gap ++ .mark ';' :: rest) = none
  | [], _, taken => by
    simp only [List.nil_append, nextWord]
    exact if_neg (by decide)
  | lexeme :: gap, h, taken => by
    obtain ⟨⟨c, rfl, -⟩, hgap⟩ := List.forall_mem_cons.mp h
    simp only [List.cons_append, nextWord]
    split
    · exact nextWord_semicolon hgap _
    · rfl

/-! ## 4. Declarations -/

/-- What may stand between the keyword and the type: nothing, or a precision. -/
def IsPrecision (ls : List Lexeme) : Prop :=
  ls = [] ∨ ∃ gap word, IsGap isAsciiBlank gap ∧ word ∈ precisions ∧
    ls = gap ++ [.word word.toList]

/-- **Lexemes that are one declaration**: the keyword, at most one precision, a type, a name and a
semicolon, with blanks between them. -/
def IsDeclaration (ls : List Lexeme) (typeName name : String) : Prop :=
  ∃ precision first second last, IsPrecision precision ∧ IsGap isAsciiBlank first ∧
    IsGap isAsciiBlank second ∧ IsGap isBlank last ∧
    ls = .word uniformWord :: (precision ++ (first ++ .word typeName.toList :: (second ++
      .word name.toList :: (last ++ [.mark ';']))))

/-- What a precision takes. -/
theorem skipPrecision_eq {taken last : Nat} {ls rest : List Lexeme}
    (h : skipPrecision taken ls = (last, rest)) :
    ∃ precision, IsPrecision precision ∧ ls = precision ++ rest ∧
      last = taken + textSize (textOf precision) := by
  have hnothing : (taken, ls) = (last, rest) → ∃ precision, IsPrecision precision ∧
      ls = precision ++ rest ∧ last = taken + textSize (textOf precision) := by
    intro heq
    cases heq
    exact ⟨[], .inl rfl, rfl, rfl⟩
  unfold skipPrecision at h
  cases hnext : nextWord taken ls with
  | none =>
    rw [hnext] at h
    exact hnothing h
  | some found =>
    obtain ⟨word, last', rest'⟩ := found
    rw [hnext] at h
    by_cases hword : word ∈ precisions
    · simp only [hword, if_true, Prod.mk.injEq] at h
      obtain ⟨rfl, rfl⟩ := h
      obtain ⟨gap, hgap, rfl, hlast⟩ := nextWord_eq_some hnext
      exact ⟨_, .inr ⟨gap, word, hgap, hword, rfl⟩, by simp, hlast⟩
    · simp only [hword, if_false] at h
      exact hnothing h

/-- **What has been found is a declaration.** -/
theorem declarationAfter_eq_some {taken stop : Nat} {rest : List Lexeme} {typeName name : String}
    (h : declarationAfter taken rest = some (typeName, name, stop)) :
    ∃ inside after, rest = inside ++ after ∧
      IsDeclaration (.word uniformWord :: inside) typeName name ∧
      stop = taken + textSize (textOf inside) := by
  unfold declarationAfter at h
  generalize hskip : skipPrecision taken rest = skipped at h
  obtain ⟨taken₁, rest₁⟩ := skipped
  obtain ⟨precision, hprecision, rfl, rfl⟩ := skipPrecision_eq hskip
  obtain ⟨⟨typeName', taken₂, rest₂⟩, htype, h⟩ := Option.bind_eq_some_iff.mp h
  obtain ⟨first, hfirst, rfl, rfl⟩ := nextWord_eq_some htype
  obtain ⟨⟨name', taken₃, rest₃⟩, hname, h⟩ := Option.bind_eq_some_iff.mp h
  obtain ⟨second, hsecond, rfl, rfl⟩ := nextWord_eq_some hname
  obtain ⟨stop', hstop, h⟩ := Option.bind_eq_some_iff.mp h
  obtain ⟨last, after, hlast, rfl, rfl⟩ := nextSemicolon_eq_some hstop
  cases h
  refine ⟨precision ++ (first ++ .word typeName.toList :: (second ++ .word name.toList ::
    (last ++ [.mark ';']))), after, by simp, ⟨precision, first, second, last, hprecision, hfirst,
    hsecond, hlast, rfl⟩, ?_⟩
  simp only [textOf_append, textOf_cons, textSize_append, textOf_nil, List.append_nil]
  omega

/-! ## 5. No declaration inside another -/

/-- What is looked for at a lexeme that is no keyword, or a keyword that declares nothing. -/
theorem declarationsFrom_skip {lexeme : Lexeme} {rest : List Lexeme}
    (h : lexeme = .word uniformWord → ∀ taken, declarationAfter taken rest = none) (offset : Nat)
    (afterPeriod : Bool) : declarationsFrom offset afterPeriod (lexeme :: rest) =
      declarationsFrom (offset + textSize lexeme.text) lexeme.isPeriod rest := by
  rw [declarationsFrom]
  split
  · rename_i hkeyword
    rw [h hkeyword.1]
    rfl
  · rfl

theorem declarationsFrom_gap {p : Char → Bool} (rest : List Lexeme) : ∀ {gap : List Lexeme},
    IsGap p gap → ∀ offset afterPeriod, ∃ period,
      declarationsFrom offset afterPeriod (gap ++ rest) =
        declarationsFrom (offset + textSize (textOf gap)) period rest
  | [], _, offset, afterPeriod => ⟨afterPeriod, rfl⟩
  | lexeme :: gap, h, offset, afterPeriod => by
    obtain ⟨⟨c, rfl, -⟩, hgap⟩ := List.forall_mem_cons.mp h
    obtain ⟨period, hrest⟩ := declarationsFrom_gap rest hgap
      (offset + textSize (Lexeme.mark c).text) (Lexeme.mark c).isPeriod
    refine ⟨period, ?_⟩
    rw [List.cons_append, declarationsFrom_skip (fun heq => by cases heq), hrest, textOf_cons,
      textSize_append, Nat.add_assoc]

/-- Behind a gap and one more lexeme, if no declaration is found there. -/
theorem declarationsFrom_step {p : Char → Bool} {gap rest : List Lexeme} {lexeme : Lexeme}
    (hgap : IsGap p gap)
    (h : lexeme = .word uniformWord → ∀ taken, declarationAfter taken rest = none) (offset : Nat)
    (afterPeriod : Bool) : declarationsFrom offset afterPeriod (gap ++ lexeme :: rest) =
      declarationsFrom (offset + textSize (textOf (gap ++ [lexeme]))) lexeme.isPeriod rest := by
  obtain ⟨period, hskip⟩ := declarationsFrom_gap (lexeme :: rest) hgap offset afterPeriod
  rw [hskip, declarationsFrom_skip h, textOf_append, textSize_append, Nat.add_assoc, textOf_cons,
    textOf_nil, List.append_nil]

/-- Fewer than two words before a semicolon are no declaration. -/
theorem declarationAfter_semicolon {rest last : List Lexeme} (hlast : IsGap isBlank last)
    (taken : Nat) : declarationAfter taken (last ++ .mark ';' :: rest) = none := by
  unfold declarationAfter skipPrecision
  simp only [nextWord_semicolon hlast]
  rfl

theorem declarationAfter_name {rest second last : List Lexeme} {name : List Char}
    (hsecond : IsGap isAsciiBlank second) (hlast : IsGap isBlank last) (taken : Nat) :
    declarationAfter taken (second ++ .word name :: (last ++ .mark ';' :: rest)) = none := by
  unfold declarationAfter skipPrecision
  rw [nextWord_gap hsecond]
  dsimp only
  split
  · simp only [nextWord_semicolon hlast]
    rfl
  · simp only [nextWord_gap hsecond, Option.bind_eq_bind, Option.bind_some,
      nextWord_semicolon hlast]
    rfl

/-- **Inside of a declaration there is no other one.** -/
theorem declarationsFrom_inside {inside after : List Lexeme} {typeName name : String}
    (h : IsDeclaration (.word uniformWord :: inside) typeName name) (offset : Nat)
    (afterPeriod : Bool) : declarationsFrom offset afterPeriod (inside ++ after) =
      declarationsFrom (offset + textSize (textOf inside)) false after := by
  obtain ⟨precision, first, second, last, hprecision, hfirst, hsecond, hlast, heq⟩ := h
  cases (List.cons.inj heq).2
  -- one step for the type, the name and the semicolon each, and before them one for a precision
  have hrest : ∀ offset afterPeriod, declarationsFrom offset afterPeriod (first ++
      .word typeName.toList :: (second ++ .word name.toList :: (last ++ .mark ';' :: after))) =
        declarationsFrom (offset + textSize (textOf (first ++ .word typeName.toList :: (second ++
          .word name.toList :: (last ++ [.mark ';']))))) false after := by
    intro offset afterPeriod
    rw [declarationsFrom_step hfirst fun _ => declarationAfter_name hsecond hlast,
      declarationsFrom_step hsecond fun _ => declarationAfter_semicolon hlast,
      declarationsFrom_step hlast fun heq => by cases heq]
    simp only [textOf_append, textOf_cons, textOf_nil, List.append_nil, textSize_append,
      Nat.add_assoc]
    rfl
  simp only [List.append_assoc, List.cons_append, List.nil_append]
  rcases hprecision with rfl | ⟨gap, word, hgap, hword, rfl⟩
  · exact hrest offset afterPeriod
  · have hkeyword : Lexeme.word word.toList ≠ .word uniformWord := by
      intro heq
      have hlist := Lexeme.word.inj heq
      simp only [precisions, List.mem_cons, List.not_mem_nil, or_false] at hword
      rcases hword with rfl | rfl | rfl <;> exact absurd hlist (by decide)
    rw [List.append_assoc, List.singleton_append,
      declarationsFrom_step hgap fun heq => absurd heq hkeyword, hrest, Nat.add_assoc,
      ← textSize_append, ← textOf_append]

/-! ## 6. A text without some declarations -/

/-- **A text and what is left of it** when declarations are taken out that stand in it in their
order, from an offset on: each at its place, and with everything between them kept. -/
inductive Cut : Nat → List Declaration → List Char → List Char → Prop
  | done (offset : Nat) (rest : List Char) : Cut offset [] rest rest
  | next {offset : Nat} {declaration : Declaration} {later : List Declaration}
    {kept removed rest short : List Char} (start : declaration.start = offset + textSize kept)
    (stop : declaration.stop = declaration.start + textSize removed)
    (declares : IsDeclaration (lexemes removed) declaration.typeName declaration.name)
    (cut : Cut declaration.stop later rest short) :
    Cut offset (declaration :: later) (kept ++ (removed ++ rest)) (kept ++ short)

namespace Cut

variable {offset : Nat} {found : List Declaration} {cs short : List Char}

/-- What stands before is kept. -/
theorem after {front : List Char} (h : Cut (offset + textSize front) found cs short) :
    Cut offset found (front ++ cs) (front ++ short) := by
  cases h with
  | done => exact .done offset _
  | @next _ declaration later kept removed rest short start stop declares cut =>
    rw [← List.append_assoc front kept, ← List.append_assoc front kept]
    refine .next ?_ stop declares cut
    rw [start, textSize_append, Nat.add_assoc]

/-- Declarations stand behind the offset. -/
theorem le_start (h : Cut offset found cs short) : ∀ declaration ∈ found,
    offset ≤ declaration.start ∧ declaration.start ≤ declaration.stop := by
  induction h with
  | done => exact fun declaration hmem => absurd hmem List.not_mem_nil
  | next start stop declares cut ih =>
    intro declaration hmem
    rcases List.mem_cons.mp hmem with rfl | hmem
    · omega
    · have := ih declaration hmem
      omega

end Cut

/-- **The declarations of a text stand apart**, also if only some of them are taken out. -/
theorem exists_cut (picked : Declaration → Bool) : ∀ (ls : List Lexeme), IsCut ls →
    ∀ offset afterPeriod, ∃ short,
      Cut offset ((declarationsFrom offset afterPeriod ls).filter picked) (textOf ls) short
  | [], _, offset, _ => ⟨[], .done offset []⟩
  | lexeme :: rest, h, offset, afterPeriod => by
    obtain ⟨-, -, hrest⟩ := isCut_cons h
    obtain ⟨short, hlater⟩ := exists_cut picked rest hrest (offset + textSize lexeme.text)
      lexeme.isPeriod
    have hkept : ∃ short, Cut offset ((declarationsFrom (offset + textSize lexeme.text)
        lexeme.isPeriod rest).filter picked) (textOf (lexeme :: rest)) short := by
      rw [textOf_cons]
      exact ⟨_, hlater.after⟩
    rw [declarationsFrom]
    split
    · rename_i hkeyword
      cases hfound : declarationAfter (offset + lexeme.byteSize) rest with
      | none => exact hkept
      | some found =>
        obtain ⟨typeName, name, stop⟩ := found
        dsimp only
        by_cases hpicked : picked ⟨typeName, name, offset, stop⟩ = true
        · -- the next declaration is looked for behind this one
          obtain ⟨inside, after, rfl, hdeclares, rfl⟩ := declarationAfter_eq_some hfound
          obtain ⟨rfl, -⟩ := hkeyword
          have hwhole : IsCut ((.word uniformWord :: inside) ++ after) := h
          obtain ⟨short, hbehind⟩ := exists_cut picked after hrest.back
            (offset + (Lexeme.word uniformWord).byteSize + textSize (textOf inside)) false
          refine ⟨[] ++ short, ?_⟩
          rw [List.filter_cons_of_pos hpicked, declarationsFrom_inside hdeclares,
            ← List.cons_append, textOf_append]
          show Cut offset _ ([] ++ (textOf (.word uniformWord :: inside) ++ textOf after)) _
          refine @Cut.next offset ⟨typeName, name, offset, _⟩ _ [] _ _ short rfl ?_ ?_ hbehind
          · rw [textOf_cons, textSize_append, Nat.add_assoc]
            rfl
          · have hcut : lexemes (textOf (.word uniformWord :: inside)) = _ := hwhole.front
            rw [hcut]
            exact hdeclares
        · rw [List.filter_cons_of_neg hpicked]
          exact hkept
    · exact hkept
termination_by ls => ls.length
decreasing_by
  · simp
  · simp only [*, List.length_cons, List.length_append]
    omega

/-! ## 7. Removal -/

/-- Characters outside of all spans are kept. -/
theorem removeFrom_kept {spans : List (Nat × Nat)} {rest : List Char} :
    ∀ {kept : List Char} {offset : Nat},
      (∀ span ∈ spans, span.2 ≤ offset ∨ offset + textSize kept ≤ span.1) →
      removeFrom spans offset (kept ++ rest) =
        kept ++ removeFrom spans (offset + textSize kept) rest
  | [], _, _ => rfl
  | c :: kept, offset, h => by
    have hsize : textSize (c :: kept) = c.utf8Size + textSize kept := rfl
    have hpos := c.utf8Size_pos
    have hfirst : ¬ (spans.any fun span => span.1 ≤ offset && offset < span.2) = true := by
      simp only [List.any_eq_true, Bool.and_eq_true, decide_eq_true_eq, not_exists, not_and]
      intro span hspan hstart hstop
      have := h span hspan
      omega
    have hrest : ∀ span ∈ spans, span.2 ≤ offset + c.utf8Size ∨
        offset + c.utf8Size + textSize kept ≤ span.1 := by
      intro span hspan
      have := h span hspan
      omega
    rw [List.cons_append, removeFrom, if_neg hfirst, removeFrom_kept hrest, hsize, Nat.add_assoc]
    rfl

/-- Characters inside of a span are not. -/
theorem removeFrom_removed {spans : List (Nat × Nat)} {span : Nat × Nat} (hspan : span ∈ spans)
    {rest : List Char} : ∀ {removed : List Char} {offset : Nat}, span.1 ≤ offset →
      offset + textSize removed ≤ span.2 →
      removeFrom spans offset (removed ++ rest) = removeFrom spans (offset + textSize removed) rest
  | [], _, _, _ => rfl
  | c :: removed, offset, hstart, hstop => by
    have hsize : textSize (c :: removed) = c.utf8Size + textSize removed := rfl
    have hpos := c.utf8Size_pos
    have hfirst : (spans.any fun span => span.1 ≤ offset && offset < span.2) = true := by
      simp only [List.any_eq_true, Bool.and_eq_true, decide_eq_true_eq]
      exact ⟨span, hspan, hstart, by omega⟩
    rw [List.cons_append, removeFrom, if_pos hfirst,
      removeFrom_removed hspan (by omega) (by omega), hsize, Nat.add_assoc]

/-- The bytes of a declaration. -/
def Declaration.span (declaration : Declaration) : Nat × Nat :=
  (declaration.start, declaration.stop)

/-- Spans that lie behind the offset, or are those of the declarations to come, take these out. -/
theorem removeFrom_of_cut {spans : List (Nat × Nat)} {offset : Nat} {found : List Declaration}
    {cs short : List Char} (h : Cut offset found cs short)
    (hbehind : ∀ span ∈ spans, span.2 ≤ offset ∨ span ∈ found.map Declaration.span)
    (hmem : ∀ declaration ∈ found, declaration.span ∈ spans) :
    removeFrom spans offset cs = short := by
  induction h with
  | done offset rest =>
    have hall : removeFrom spans offset (rest ++ []) =
        rest ++ removeFrom spans (offset + textSize rest) [] := by
      refine removeFrom_kept fun span hspan => .inl ?_
      rcases hbehind span hspan with hle | hin
      · exact hle
      · exact absurd hin List.not_mem_nil
    simpa [removeFrom] using hall
  | @next offset declaration later kept removed rest short start stop declares cut ih =>
    have hlater := cut.le_start
    have hkept : ∀ span ∈ spans, span.2 ≤ offset ∨ offset + textSize kept ≤ span.1 := by
      intro span hspan
      rcases hbehind span hspan with hle | hin
      · exact .inl hle
      · obtain ⟨other, hother, rfl⟩ := List.mem_map.mp hin
        rcases List.mem_cons.mp hother with rfl | hother
        · exact .inr (Nat.le_of_eq start.symm)
        · have := hlater other hother
          exact .inr (by simp only [Declaration.span]; omega)
    have hgone : removeFrom spans declaration.start (removed ++ rest) =
        removeFrom spans (declaration.start + textSize removed) rest :=
      removeFrom_removed (hmem declaration List.mem_cons_self) (Nat.le_refl _)
        (Nat.le_of_eq stop.symm)
    rw [removeFrom_kept hkept, ← start, hgone, ← stop]
    congr 1
    refine ih ?_ fun other hother => hmem other (List.mem_cons_of_mem _ hother)
    intro span hspan
    rcases hbehind span hspan with hle | hin
    · exact .inl (by omega)
    · rcases List.mem_cons.mp hin with rfl | hin
      · exact .inl (Nat.le_refl _)
      · exact .inr hin

/-- **Removal leaves what stands between the declarations.** -/
theorem cut_removeSpans (picked : Declaration → Bool) (source : String) :
    Cut 0 ((declarations source).filter picked) source.toList
      (removeSpans (((declarations source).filter picked).map Declaration.span) source).toList := by
  obtain ⟨short, hcut⟩ := exists_cut picked (lexemes source.toList) (isCut_lexemes _) 0 false
  rw [textOf, flatMap_text_lexemes] at hcut
  have hremoved := removeFrom_of_cut hcut (fun span hspan => .inr hspan)
    fun declaration hmem => List.mem_map_of_mem hmem
  unfold removeSpans
  rw [String.toList_ofList]
  have hsame : removeFrom (((declarations source).filter picked).map Declaration.span) 0
      source.toList = short := hremoved
  rw [hsame]
  exact hcut

/-! ## 8. Texts that end with their lexemes -/

/-- **A text that ends with its lexemes**: whatever follows it is cut as if it stood alone, and is
no member. -/
structure Settled (cs : List Char) : Prop where
  lexemes_append : ∀ next, lexemes (cs ++ next) = lexemes cs ++ lexemes next
  period : periodAfter false (lexemes cs) = false

theorem periodAfter_append : ∀ (ls ms : List Lexeme) (afterPeriod : Bool),
    periodAfter afterPeriod (ls ++ ms) = periodAfter (periodAfter afterPeriod ls) ms
  | [], _, _ => rfl
  | lexeme :: rest, ms, _ => periodAfter_append rest ms lexeme.isPeriod

namespace Settled

theorem nil : Settled [] := by
  refine ⟨fun next => ?_, ?_⟩
  · rw [List.nil_append, lexemes, List.nil_append]
  · rw [lexemes, periodAfter]

theorem append {cs ds : List Char} (hcs : Settled cs) (hds : Settled ds) : Settled (cs ++ ds) := by
  refine ⟨fun next => ?_, ?_⟩
  · rw [List.append_assoc, hcs.lexemes_append, hds.lexemes_append, hcs.lexemes_append,
      List.append_assoc]
  · rw [hcs.lexemes_append, periodAfter_append, hcs.period, hds.period]

theorem join : ∀ {texts : List String}, (∀ text ∈ texts, Settled text.toList) →
    Settled (String.join texts).toList
  | [], _ => by simpa using nil
  | text :: rest, h => by
    obtain ⟨htext, hrest⟩ := List.forall_mem_cons.mp h
    simpa using htext.append (join hrest)

end Settled

/-- A comment ends in a slash. -/
theorem getLast?_of_cutComment {cs inner rest : List Char}
    (h : cutComment cs = some (inner, rest)) : inner.getLast? = some '/' := by
  fun_induction cutComment cs generalizing inner rest with
  | case1 => cases h
  | case2 rest' =>
    cases h
    rfl
  | case3 c rest' hopen ih =>
    obtain ⟨⟨i, r⟩, hcut, heq⟩ := Option.map_eq_some_iff.mp h
    cases heq
    rw [List.getLast?_cons, ih hcut]
    rfl

/-- The only lexeme that ends in a line end is the line end, and a comment that is not closed. -/
theorem eq_mark_of_getLast? {lexeme : Lexeme} (formed : lexeme.Formed)
    (closed : lexeme.isOpen = false) (h : lexeme.text.getLast? = some '\n') :
    lexeme = .mark '\n' := by
  have hmem : '\n' ∈ lexeme.text := List.mem_of_getLast? h
  cases lexeme with
  | word text =>
    obtain ⟨c, rest, rfl, hc, hrest⟩ := formed
    rcases List.mem_cons.mp hmem with rfl | hmem
    · exact absurd hc (by decide)
    · exact absurd (hrest '\n' hmem) (by decide)
  | number text =>
    obtain ⟨c, rest, rfl, hc, hrest⟩ := formed
    rcases List.mem_cons.mp hmem with rfl | hmem
    · exact absurd hc (by decide)
    · exact absurd (hrest '\n' hmem) (by decide)
  | lineComment text =>
    obtain ⟨rest, rfl, hrest⟩ := formed
    rcases List.mem_cons.mp hmem with heq | hmem
    · cases heq
    · rcases List.mem_cons.mp hmem with heq | hmem
      · cases heq
      · exact absurd rfl (hrest '\n' hmem)
  | blockComment text =>
    obtain ⟨inner, rfl, hcut⟩ := formed
    have hlast : ('/' :: '*' :: inner).getLast? = some '/' := by
      rw [List.getLast?_cons, List.getLast?_cons, getLast?_of_cutComment hcut]
      rfl
    have heq : some '/' = some '\n' := hlast.symm.trans h
    cases heq
  | openComment text => cases closed
  | mark c =>
    have heq : some c = some '\n' := h
    cases heq
    rfl

/-- **A text that closes its comments and ends in a line end** ends with its lexemes. -/
theorem Settled.ofLine {cs : List Char} (closed : ClosesComments cs)
    (hline : cs.getLast? = some '\n') : Settled cs := by
  have hlast : (lexemes cs).getLast? = some (.mark '\n') := by
    cases hlexemes : (lexemes cs).getLast? with
    | none =>
      rw [List.getLast?_eq_none_iff] at hlexemes
      have htext := flatMap_text_lexemes cs
      rw [hlexemes] at htext
      rw [← htext] at hline
      cases hline
    | some last =>
      have hmem := List.mem_of_getLast? hlexemes
      have formed := formed_of_mem_lexemes hmem
      obtain ⟨front, hfront⟩ := List.getLast?_eq_some_iff.mp hlexemes
      have htext : textOf front ++ last.text = cs := by
        rw [← flatMap_text_lexemes cs, hfront, ← textOf, textOf_append]
        simp
      rw [← htext, List.getLast?_append] at hline
      have hown : last.text.getLast? = some '\n' := by
        cases hown : last.text.getLast? with
        | none => exact absurd (List.getLast?_eq_none_iff.mp hown) formed.text_ne_nil
        | some c =>
          rw [hown] at hline
          exact hline
      rw [eq_mark_of_getLast? formed (closed last hmem) hown]
  refine ⟨fun next => ShaderFabric.lexemes_append fun last hsame => ?_, ?_⟩
  · rw [hlast] at hsame
    cases hsame
    exact fun heq => by cases heq
  · obtain ⟨front, hfront⟩ := List.getLast?_eq_some_iff.mp hlast
    rw [hfront, periodAfter_append]
    rfl

/-- What is found among the lexemes behind others. -/
theorem mem_declarationsFrom_append {declaration : Declaration} {ms : List Lexeme} :
    ∀ {ls : List Lexeme} {offset : Nat} {afterPeriod : Bool},
      declaration ∈ declarationsFrom (offset + textSize (textOf ls))
        (periodAfter afterPeriod ls) ms →
        declaration ∈ declarationsFrom offset afterPeriod (ls ++ ms)
  | [], _, _, h => h
  | lexeme :: rest, offset, afterPeriod, h => by
    have hlater : declaration ∈ declarationsFrom (offset + lexeme.byteSize) lexeme.isPeriod
        (rest ++ ms) := by
      refine mem_declarationsFrom_append ?_
      rw [textOf_cons, textSize_append, ← Nat.add_assoc] at h
      exact h
    rw [List.cons_append, declarationsFrom]
    split
    · split
      · exact List.mem_cons_of_mem _ hlater
      · exact hlater
    · exact hlater

/-- The words of a line without a precision. -/
theorem declarationAfter_line {typeName name : String} (hprecision : typeName ∉ precisions)
    (taken : Nat) (rest : List Lexeme) :
    declarationAfter taken (.mark ' ' :: .word typeName.toList :: .mark ' ' :: .word name.toList ::
        .mark ';' :: rest) =
      some (typeName, name, taken + textSize (textOf [.mark ' ', .word typeName.toList, .mark ' ',
        .word name.toList, .mark ';'])) := by
  have hblank : IsGap isAsciiBlank [.mark ' '] := isGap_nil.cons (by decide)
  have hword : ∀ (word : List Char) (taken : Nat) (more : List Lexeme),
      nextWord taken (.mark ' ' :: .word word :: more) =
        some (String.ofList word, taken + textSize (textOf [.mark ' ', .word word]), more) :=
    fun word taken more => nextWord_gap hblank taken
  have hend : ∀ taken, nextSemicolon taken (.mark ';' :: rest) = some (taken + 1) := by
    intro taken
    rw [nextSemicolon, if_neg (by decide), if_pos rfl]
  unfold declarationAfter skipPrecision
  rw [hword, String.ofList_toList]
  simp only [hprecision, if_false, hword, Option.bind_eq_bind, Option.bind_some, hend,
    String.ofList_toList, textOf_cons, textOf_nil, List.append_nil, textSize_append, Nat.add_assoc]
  rfl

/-- **A declaration behind a text that ends with its lexemes** is found at its place. -/
theorem mem_declarations_of_settled {front rest typeName name : String}
    (settled : Settled front.toList) (htype : IsIdentifier typeName) (hname : IsIdentifier name)
    (hprecision : typeName ∉ precisions) :
    (⟨typeName, name, front.utf8ByteSize,
        front.utf8ByteSize + ("uniform " ++ typeName ++ " " ++ name ++ ";").utf8ByteSize⟩ :
      Declaration) ∈
        declarations (front ++ ("uniform " ++ typeName ++ " " ++ name ++ ";") ++ rest) := by
  have hkeyword : IsIdentifier "uniform" := by decide
  have hspelled : uniformWord = "uniform".toList := rfl
  have hcut : ∀ {word : String}, IsIdentifier word → ∀ {c : Char}, IsSeparator c → ∀ next,
      lexemes (word.toList ++ c :: next) = .word word.toList :: .mark c :: lexemes next := by
    intro word hword c separator next
    rw [lexemes_identifier hword separator.isWordChar, separator.lexemes_cons]
  have htext : (front ++ ("uniform " ++ typeName ++ " " ++ name ++ ";") ++ rest).toList =
      front.toList ++ ("uniform".toList ++ ' ' :: (typeName.toList ++ ' ' :: (name.toList ++ ';' ::
        rest.toList))) := by
    simp
  have hline : ("uniform " ++ typeName ++ " " ++ name ++ ";").utf8ByteSize =
      (Lexeme.word uniformWord).byteSize + textSize (textOf [.mark ' ', .word typeName.toList,
        .mark ' ', .word name.toList, .mark ';']) := by
    have hlist : ("uniform " ++ typeName ++ " " ++ name ++ ";").toList =
        (Lexeme.word uniformWord).text ++ textOf [.mark ' ', .word typeName.toList, .mark ' ',
          .word name.toList, .mark ';'] := by
      simp [Lexeme.text, hspelled]
    rw [utf8ByteSize_eq_textSize, hlist, textSize_append, byteSize_eq_textSize]
  unfold declarations
  rw [htext, settled.lexemes_append, hcut hkeyword .blank, hcut htype .blank,
    hcut hname .semicolon]
  refine mem_declarationsFrom_append ?_
  rw [settled.period, textOf, flatMap_text_lexemes, Nat.zero_add, ← utf8ByteSize_eq_textSize,
    declarationsFrom, if_pos ⟨rfl, rfl⟩, ← hspelled, declarationAfter_line hprecision, hline,
    Nat.add_assoc]
  exact List.mem_cons_self

end ShaderFabric
