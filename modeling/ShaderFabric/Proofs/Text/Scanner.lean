/-
# The words of a text, byte by byte

The words of a text are found by a scanner that reads one byte after the other and knows nothing but
its place and what it is inside of: a comment, a number, a word, or nothing.  It looks one byte
ahead for the marks of comments, and one byte back for a period, and it cuts the text where a word
starts and ends.  It finds the words of the lexemes, never cuts a character, and takes at most three
turns for a byte.

* `Scanner.turn`, `Scanner.run` -- one turn of the scanner, and all turns;
* `goes_lexeme` -- over one lexeme, from its first byte to what follows it;
* `goes_lexemes` -- over the lexemes of a text, with their words;
* `run_eq_words` -- the scanner ends, with the words of the text;
* `endMode_lexemes` -- it comes to the end of the text inside of a block comment exactly if one is
  not closed.
-/
import ShaderFabric.Material.Node
import ShaderFabric.Proofs.Text.Byte
import ShaderFabric.Proofs.Text.Standing

namespace ShaderFabric

/-! ## 1. The scanner -/

namespace Scanner

/-- What a scanner is inside of. -/
inductive Mode
  | between
  /-- A comment up to the end of the line. -/
  | line
  | block
  | number
  /-- A word from a place on. -/
  | word (start : Nat)
  deriving Repr, DecidableEq

/-- Bytes that are passed over one by one inside of a line comment, a number or a word. -/
def Mode.takes : Mode → Char → Bool
  | line, c => c ≠ '\n'
  | number, c => isNumberChar c
  | word _, c => isWordChar c
  | _, _ => false

end Scanner

/-- A scanner in a text. -/
structure Scanner where
  place : Nat
  mode : Scanner.Mode
  deriving Repr, DecidableEq

namespace Scanner

/-- Before the first byte. -/
def start : Scanner := ⟨0, .between⟩

/-- What comes of a turn. -/
inductive Turn
  | goes (next : Scanner)
  | yields (word : Word) (next : Scanner)
  | ended
  /-- The text is cut inside of a character. -/
  | broken
  deriving Repr, DecidableEq

section Turns

variable (cs : List Char)

/-- Between words: the byte tells what starts here, with the one behind it for comments. -/
def enter (place : Nat) : Turn :=
  match byteAt cs place with
  | none => .ended
  | some c =>
    if c = '/' ∧ byteAt cs (place + 1) = some '/' then .goes ⟨place, .line⟩
    else if c = '/' ∧ byteAt cs (place + 1) = some '*' then .goes ⟨place + 2, .block⟩
    else if c.isDigit then .goes ⟨place, .number⟩
    else if isWordStart c then .goes ⟨place, .word place⟩
    else .goes ⟨place + 1, .between⟩

/-- Inside of a block comment: on to a star with a slash behind it, and past both; at the end of the
text no further than that. -/
def inBlock (place : Nat) : Turn :=
  if (byteAt cs place).all fun c => c = '*' ∧ byteAt cs (place + 1) = some '/' then
    .goes ⟨min (place + 2) (textSize cs), .between⟩
  else .goes ⟨place + 1, .block⟩

/-- At the end of what the scanner is inside of: a word is cut out of the text. -/
def leave (place : Nat) : Mode → Turn
  | .word start =>
    match slice? cs start place with
    | some text =>
      .yields ⟨String.ofList text, start, place,
        decide (0 < start ∧ byteAt cs (start - 1) = some '.')⟩ ⟨place, .between⟩
    | none => .broken
  | _ => .goes ⟨place, .between⟩

/-- One turn. -/
def turn (s : Scanner) : Turn :=
  match s.mode with
  | .between => enter cs s.place
  | .block => inBlock cs s.place
  | mode =>
    if (byteAt cs s.place).any mode.takes then .goes ⟨s.place + 1, mode⟩ else leave cs s.place mode

/-- **The words that a scanner yields**, if it ends within so many turns. -/
def run : Nat → Scanner → Option (List Word)
  | 0, _ => none
  | fuel + 1, s =>
    match turn cs s with
    | .goes next => run fuel next
    | .yields word next => (run fuel next).map fun later => word :: later
    | .ended => some []
    | .broken => none

/-- **What a scanner is inside of** when it comes to the end of the text, if it does so within so
many turns. -/
def endMode : Nat → Scanner → Option Mode
  | 0, _ => none
  | fuel + 1, s =>
    if textSize cs ≤ s.place then some s.mode
    else
      match turn cs s with
      | .goes next => endMode fuel next
      | .yields _ next => endMode fuel next
      | .ended => none
      | .broken => none

end Turns

/-! ## 2. Many turns -/

/-- **Turn by turn** from one state to another, with the words that are yielded; each turn is taken
below a limit. -/
inductive Goes (cs : List Char) (limit : Nat) : Nat → Scanner → List Word → Scanner → Prop
  | stays (s : Scanner) : Goes cs limit 0 s [] s
  | goes {count : Nat} {s next last : Scanner} {found : List Word} (below : s.place < limit)
    (h : turn cs s = .goes next) (later : Goes cs limit count next found last) :
    Goes cs limit (count + 1) s found last
  | yields {count : Nat} {s next last : Scanner} {word : Word} {found : List Word}
    (below : s.place < limit) (h : turn cs s = .yields word next)
    (later : Goes cs limit count next found last) : Goes cs limit (count + 1) s (word :: found) last

namespace Goes

variable {cs : List Char} {limit count : Nat} {s next : Scanner} {found : List Word}

theorem one (below : s.place < limit) (h : turn cs s = .goes next) : Goes cs limit 1 s [] next :=
  .goes below h (.stays next)

theorem trans {more : Nat} {last : Scanner} {later : List Word}
    (h : Goes cs limit count s found next) (hlater : Goes cs limit more next later last) :
    Goes cs limit (count + more) s (found ++ later) last := by
  induction h with
  | stays s =>
    rw [Nat.zero_add]
    exact hlater
  | goes below hturn _ ih =>
    rw [Nat.add_right_comm]
    exact .goes below hturn (ih hlater)
  | yields below hturn _ ih =>
    rw [Nat.add_right_comm]
    exact .yields below hturn (ih hlater)

theorem mono {limit' : Nat} (h : Goes cs limit count s found next) (hle : limit ≤ limit') :
    Goes cs limit' count s found next := by
  induction h with
  | stays s => exact .stays s
  | goes below hturn _ ih => exact .goes (Nat.lt_of_lt_of_le below hle) hturn ih
  | yields below hturn _ ih => exact .yields (Nat.lt_of_lt_of_le below hle) hturn ih

/-- The words on the way are those that the run finds. -/
theorem run (h : Goes cs limit count s found next) (fuel : Nat) :
    Scanner.run cs (count + fuel) s = (Scanner.run cs fuel next).map fun later => found ++ later := by
  induction h with
  | stays s => simp
  | goes below hturn _ ih =>
    rw [Nat.add_right_comm, Scanner.run, hturn]
    exact ih
  | yields below hturn _ ih =>
    rw [Nat.add_right_comm, Scanner.run, hturn]
    simp [ih, Function.comp_def]

/-- Below the end of the text it has not come to the end. -/
theorem endMode (h : Goes cs limit count s found next) (hlimit : limit ≤ textSize cs) (fuel : Nat) :
    Scanner.endMode cs (count + fuel) s = Scanner.endMode cs fuel next := by
  induction h with
  | stays s => rw [Nat.zero_add]
  | goes below hturn _ ih =>
    rw [Nat.add_right_comm, Scanner.endMode, if_neg (by omega), hturn]
    exact ih
  | yields below hturn _ ih =>
    rw [Nat.add_right_comm, Scanner.endMode, if_neg (by omega), hturn]
    exact ih

end Goes

/-- Bytes that are passed over one by one. -/
theorem goes_over {cs : List Char} {limit : Nat} {mode : Mode} : ∀ {count place : Nat},
    (∀ i < count, turn cs ⟨place + i, mode⟩ = .goes ⟨place + i + 1, mode⟩) →
      place + count ≤ limit → Goes cs limit count ⟨place, mode⟩ [] ⟨place + count, mode⟩
  | 0, place, _, _ => .stays _
  | count + 1, place, h, hlimit => by
    have hfirst := h 0 (Nat.succ_pos count)
    have hrest : Goes cs limit count ⟨place + 1, mode⟩ [] ⟨place + 1 + count, mode⟩ := by
      refine goes_over (fun i hi => ?_) (by omega)
      have hnext := h (i + 1) (Nat.succ_lt_succ hi)
      rwa [← Nat.add_assoc, Nat.add_right_comm place i 1] at hnext
    rw [Nat.add_right_comm] at hrest
    have hbelow : place < limit := by omega
    exact .goes hbelow hfirst hrest

/-! ## 3. Over characters -/

theorem lt_of_isWordChar {c : Char} (h : isWordChar c = true) : c.toNat < 128 :=
  Nat.lt_of_le_of_lt (toNat_of_isWordChar h).2 (by decide)

theorem lt_of_isNumberChar {c : Char} (h : isNumberChar c = true) : c.toNat < 128 := by
  rcases Bool.or_eq_true_iff.mp h with h | h
  · exact lt_of_isWordChar h
  · obtain rfl : c = '.' := of_decide_eq_true h
    decide

/-- A byte is passed over exactly if its character is. -/
theorem Mode.takes_of_isByteOf (mode : Mode) {c byte : Char} (h : IsByteOf c byte) :
    mode.takes byte = mode.takes c := by
  cases mode with
  | line =>
    have hend : '\n'.toNat < 128 := by decide
    simp only [takes, ne_eq, h.eq_iff hend]
  | number => exact h.congr fun _ => lt_of_isNumberChar
  | word => exact h.congr fun _ => lt_of_isWordChar
  | _ => rfl

section Characters

variable {front rest : List Char} {c : Char}

/-- Characters that are passed over one by one. -/
theorem goes_inside {mode : Mode} {inside back : List Char}
    (hinside : ∀ c ∈ inside, mode.takes c = true) :
    Goes (front ++ (inside ++ back)) (textSize front + textSize inside) (textSize inside)
      ⟨textSize front, mode⟩ [] ⟨textSize front + textSize inside, mode⟩ := by
  refine goes_over (fun i hi => ?_) (Nat.le_refl _)
  obtain ⟨c, hc, byte, hbyte, hof⟩ := exists_byteAt front back hi
  have htakes : (byteAt (front ++ (inside ++ back)) (textSize front + i)).any mode.takes = true := by
    rw [hbyte, Option.any_some, mode.takes_of_isByteOf hof, hinside c hc]
  unfold turn
  cases mode with
  | between =>
    have hnot := hinside c hc
    cases hnot
  | block =>
    have hnot := hinside c hc
    cases hnot
  | _ => exact if_pos htakes

/-- Where no more is passed over, the scanner leaves what it is inside of. -/
theorem any_takes_eq_false {mode : Mode} (h : ∀ c, rest.head? = some c → mode.takes c = false) :
    (byteAt (front ++ rest) (textSize front)).any mode.takes = false := by
  cases rest with
  | nil =>
    rw [byteAt_end]
    rfl
  | cons c rest =>
    obtain ⟨byte, hbyte, hof⟩ := exists_byteAt_head front c rest
    rw [hbyte, Option.any_some, mode.takes_of_isByteOf hof, h c rfl]

theorem turn_word (hc : isWordStart c = true) :
    turn (front ++ c :: rest) ⟨textSize front, .between⟩ =
      .goes ⟨textSize front, .word (textSize front)⟩ := by
  have hbyte : byteAt (front ++ c :: rest) (textSize front) = some c :=
    (byteAt_eq_some_iff front (lt_of_isWordChar (isWordChar_of_isWordStart hc))).mpr rfl
  have hslash : c ≠ '/' := fun h => absurd (h ▸ hc) (by decide)
  simp only [turn, enter, hbyte, hslash, isDigit_eq_false_of_isWordStart hc, hc, false_and,
    if_false, if_true, Bool.false_eq_true]

theorem turn_number (hc : c.isDigit = true) :
    turn (front ++ c :: rest) ⟨textSize front, .between⟩ = .goes ⟨textSize front, .number⟩ := by
  have hbyte : byteAt (front ++ c :: rest) (textSize front) = some c :=
    (byteAt_eq_some_iff front (lt_of_isWordChar (isWordChar_of_isDigit hc))).mpr rfl
  have hslash : c ≠ '/' := fun h => absurd (h ▸ hc) (by decide)
  simp only [turn, enter, hbyte, hslash, hc, false_and, if_false, if_true]

theorem turn_line :
    turn (front ++ '/' :: '/' :: rest) ⟨textSize front, .between⟩ =
      .goes ⟨textSize front, .line⟩ := by
  have hslash : '/'.toNat < 128 := by decide
  obtain ⟨hbyte, hnext⟩ := byteAt_pair front rest hslash hslash
  simp only [turn, enter, hbyte, hnext, and_self, if_true]

theorem turn_block :
    turn (front ++ '/' :: '*' :: rest) ⟨textSize front, .between⟩ =
      .goes ⟨textSize front + 2, .block⟩ := by
  have hslash : '/'.toNat < 128 := by decide
  have hstar : '*'.toNat < 128 := by decide
  obtain ⟨hbyte, hnext⟩ := byteAt_pair front rest hslash hstar
  simp only [turn, enter, hbyte, hnext, true_and, Option.some.injEq, if_true]
  rfl

theorem turn_closing :
    turn (front ++ '*' :: '/' :: rest) ⟨textSize front, .block⟩ =
      .goes ⟨textSize front + 2, .between⟩ := by
  have hslash : '/'.toNat < 128 := by decide
  have hstar : '*'.toNat < 128 := by decide
  obtain ⟨hbyte, hnext⟩ := byteAt_pair front rest hstar hslash
  have hend : textSize front + 2 ≤ textSize (front ++ '*' :: '/' :: rest) := by
    have hall : textSize ('*' :: '/' :: rest) = 2 + textSize rest := textSize_append ['*', '/'] rest
    rw [textSize_append, hall]
    omega
  simp only [turn, inBlock, hbyte, hnext, Option.all_some, and_self, decide_true, if_true,
    Nat.min_eq_left hend]

/-- Where two marks do not stand as characters, no bytes look like them. -/
theorem not_pair {first second byte : Char} (hfirst : first.toNat < 128)
    (hsecond : second.toNat < 128) (h : c = first → rest.head? ≠ some second) {count : Nat}
    (hcount : count < c.utf8Size) (hof : IsByteOf c byte) :
    ¬ (byte = first ∧ byteAt (front ++ c :: rest) (textSize front + count + 1) = some second) := by
  rintro ⟨hbyte, hnext⟩
  obtain rfl : c = first := (hof.eq_iff hfirst).mp hbyte
  rw [utf8Size_of_lt hfirst] at hcount
  obtain rfl : count = 0 := by omega
  exact h rfl ((byteAt_succ_eq_some_iff front hfirst hsecond).mp hnext)

/-- A character that starts nothing is passed over, all its bytes. -/
theorem goes_mark (formed : (Lexeme.mark c).Formed)
    (hends : (Lexeme.mark c).EndsBefore rest.head?) :
    Goes (front ++ c :: rest) (textSize front + c.utf8Size) c.utf8Size ⟨textSize front, .between⟩ []
      ⟨textSize front + c.utf8Size, .between⟩ := by
  refine goes_over (fun i hi => ?_) (Nat.le_refl _)
  obtain ⟨byte, hbyte, hof⟩ := exists_byteAt_cons front c rest hi
  have hline : ¬ (byte = '/' ∧
      byteAt (front ++ c :: rest) (textSize front + i + 1) = some '/') :=
    not_pair (by decide) (by decide) (fun hc hhead => (hends hc _ hhead).1 rfl) hi hof
  have hblock : ¬ (byte = '/' ∧
      byteAt (front ++ c :: rest) (textSize front + i + 1) = some '*') :=
    not_pair (by decide) (by decide) (fun hc hhead => (hends hc _ hhead).2 rfl) hi hof
  have hstart : isWordStart byte = false :=
    (hof.congr fun _ h => lt_of_isWordChar (isWordChar_of_isWordStart h)).trans formed.1
  have hdigit : byte.isDigit = false :=
    (hof.congr fun _ h => lt_of_isWordChar (isWordChar_of_isDigit h)).trans formed.2
  simp only [turn, enter, hbyte, hline, hblock, hstart, hdigit, if_false, Bool.false_eq_true]

/-- Inside of a block comment a character is passed over, all its bytes, unless the comment ends
with it. -/
theorem goes_commented (hopen : c = '*' → rest.head? ≠ some '/') :
    Goes (front ++ c :: rest) (textSize front + c.utf8Size) c.utf8Size ⟨textSize front, .block⟩ []
      ⟨textSize front + c.utf8Size, .block⟩ := by
  refine goes_over (fun i hi => ?_) (Nat.le_refl _)
  obtain ⟨byte, hbyte, hof⟩ := exists_byteAt_cons front c rest hi
  have hinside : ¬ (byte = '*' ∧
      byteAt (front ++ c :: rest) (textSize front + i + 1) = some '/') :=
    not_pair (by decide) (by decide) hopen hi hof
  simp only [turn, inBlock, hbyte, Option.all_some, hinside, decide_false, Bool.false_eq_true,
    if_false]

end Characters

/-! ## 4. Over a lexeme -/

/-- Over the inside of a block comment, up to what closes it. -/
theorem goes_closed (next : List Char) : ∀ {inner : List Char},
    cutComment inner = some (inner, []) → ∀ front : List Char,
      ∃ count ≤ textSize inner,
        Goes (front ++ (inner ++ next)) (textSize front + textSize inner) count
          ⟨textSize front, .block⟩ [] ⟨textSize front + textSize inner, .between⟩
  | [], h, _ => by cases h
  | c :: inner, h, front => by
    by_cases hclose : c = '*' ∧ inner.head? = some '/'
    · obtain ⟨rfl, hhead⟩ := hclose
      obtain ⟨rest, rfl⟩ := List.head?_eq_some_iff.mp hhead
      obtain rfl : rest = [] := (Prod.mk.inj (Option.some.inj h)).2
      exact ⟨1, Nat.le_succ 1, .one (Nat.lt_add_of_pos_right Nat.two_pos) turn_closing⟩
    · have hopen : c = '*' → inner.head? ≠ some '/' := fun hc hhead => hclose ⟨hc, hhead⟩
      rw [cutComment_cons hopen] at h
      obtain ⟨⟨i, r⟩, hcut, heq⟩ := Option.map_eq_some_iff.mp h
      obtain ⟨hinner, rfl⟩ := Prod.mk.inj heq
      obtain rfl : inner = i := (List.cons.inj hinner).2.symm
      have hstill : c = '*' → (inner ++ next).head? ≠ some '/' := by
        intro hc hhead
        cases inner with
        | nil => exact ne_nil_of_cutComment hcut rfl
        | cons d inner => exact hopen hc hhead
      obtain ⟨count, hcount, hlater⟩ := goes_closed next hcut (front ++ [c])
      rw [List.append_assoc, textSize_concat, Nat.add_assoc] at hlater
      refine ⟨c.utf8Size + count, Nat.add_le_add_left hcount _, ?_⟩
      exact ((goes_commented hstill).mono (by rw [textSize_cons]; omega)).trans hlater

/-- Over a comment that is not closed, to the end of the text. -/
theorem goes_open : ∀ {inner : List Char}, cutComment inner = none → ∀ front : List Char,
    Goes (front ++ inner) (textSize front + textSize inner) (textSize inner)
      ⟨textSize front, .block⟩ [] ⟨textSize front + textSize inner, .block⟩
  | [], _, _ => .stays _
  | c :: inner, h, front => by
    have hopen := head?_ne_of_cutComment h
    rw [cutComment_cons hopen, Option.map_eq_none_iff] at h
    have hlater := goes_open h (front ++ [c])
    rw [List.append_assoc, textSize_concat, Nat.add_assoc] at hlater
    exact ((goes_commented hopen).mono (by rw [textSize_cons]; omega)).trans hlater

end Scanner

/-- What the scanner is inside of at the end of a lexeme that starts at a place. -/
def Lexeme.lastMode (place : Nat) : Lexeme → Scanner.Mode
  | word _ => .word place
  | number _ => .number
  | lineComment _ => .line
  | blockComment _ => .between
  | openComment _ => .block
  | mark _ => .between

namespace Scanner

section Lexemes

variable (front : List Char) {next : List Char} {lexeme : Lexeme}

/-- **Over a lexeme**, to its last byte. -/
theorem goes_lexeme (formed : lexeme.Formed) (hends : lexeme.EndsBefore next.head?) :
    ∃ count ≤ textSize lexeme.text + 1,
      Goes (front ++ (lexeme.text ++ next)) (textSize front + textSize lexeme.text) count
        ⟨textSize front, .between⟩ []
        ⟨textSize front + textSize lexeme.text, lexeme.lastMode (textSize front)⟩ := by
  have hbelow : textSize front < textSize front + textSize lexeme.text :=
    Nat.lt_add_of_pos_right formed.textSize_pos
  cases lexeme with
  | word text =>
    obtain ⟨c, rest, rfl, hc, hrest⟩ := formed
    have hinside : ∀ d ∈ c :: rest, (Mode.word (textSize front)).takes d = true :=
      List.forall_mem_cons.mpr ⟨isWordChar_of_isWordStart hc, hrest⟩
    exact ⟨_, (Nat.add_comm _ _).le, .trans (.one hbelow (turn_word hc)) (goes_inside hinside)⟩
  | number text =>
    obtain ⟨c, rest, rfl, hc, hrest⟩ := formed
    have hinside : ∀ d ∈ c :: rest, Mode.number.takes d = true := by
      refine List.forall_mem_cons.mpr ⟨?_, hrest⟩
      exact Bool.or_eq_true_iff.mpr (.inl (isWordChar_of_isDigit hc))
    exact ⟨_, (Nat.add_comm _ _).le, .trans (.one hbelow (turn_number hc)) (goes_inside hinside)⟩
  | lineComment text =>
    obtain ⟨rest, rfl, hrest⟩ := formed
    have hinside : ∀ d ∈ '/' :: '/' :: rest, Mode.line.takes d = true :=
      List.forall_mem_cons.mpr ⟨by decide, List.forall_mem_cons.mpr ⟨by decide,
        fun d hd => decide_eq_true (hrest d hd)⟩⟩
    exact ⟨_, (Nat.add_comm _ _).le, .trans (.one hbelow turn_line) (goes_inside hinside)⟩
  | blockComment text =>
    obtain ⟨inner, rfl, hcut⟩ := formed
    obtain ⟨count, hcount, hinner⟩ := goes_closed next hcut (front ++ ['/', '*'])
    have hsize : textSize (Lexeme.blockComment ('/' :: '*' :: inner)).text = 2 + textSize inner :=
      textSize_append ['/', '*'] inner
    rw [textSize_append, List.append_assoc, Nat.add_assoc] at hinner
    rw [hsize] at hbelow ⊢
    refine ⟨1 + count, by omega, .trans (.one hbelow turn_block) hinner⟩
  | openComment text =>
    obtain ⟨inner, rfl, hcut⟩ := formed
    obtain rfl : next = [] := List.head?_eq_none_iff.mp hends
    have hinner := goes_open hcut (front ++ ['/', '*'])
    have hsize : textSize (Lexeme.openComment ('/' :: '*' :: inner)).text = 2 + textSize inner :=
      textSize_append ['/', '*'] inner
    rw [textSize_append, List.append_assoc, Nat.add_assoc] at hinner
    rw [hsize] at hbelow ⊢
    rw [List.append_nil]
    refine ⟨1 + textSize inner, by omega, .trans (.one hbelow turn_block) hinner⟩
  | mark c => exact ⟨_, Nat.le_succ _, goes_mark formed hends⟩

/-- **At the end of a lexeme** the scanner leaves it, and a word is yielded. -/
theorem goes_left (hends : lexeme.EndsBefore next.head?) :
    ∃ count ≤ 1,
      Goes (front ++ (lexeme.text ++ next)) (textSize front + textSize lexeme.text + 1) count
        ⟨textSize front + textSize lexeme.text, lexeme.lastMode (textSize front)⟩
        (lexeme.word? (textSize front) (decide (front.getLast? = some '.'))).toList
        ⟨textSize front + textSize lexeme.text, .between⟩ := by
  have hbelow := Nat.lt_succ_self (textSize front + textSize lexeme.text)
  -- A run of bytes of one kind ends where no more follow.
  have hleft : ∀ mode : Mode, (∀ c, next.head? = some c → mode.takes c = false) →
      (byteAt (front ++ (lexeme.text ++ next)) (textSize front + textSize lexeme.text)).any
        mode.takes = false := by
    intro mode hmode
    rw [← List.append_assoc, ← textSize_append]
    exact any_takes_eq_false hmode
  cases lexeme with
  | word text =>
    have hstop : (byteAt (front ++ (text ++ next)) (textSize front + textSize text)).any
        (Mode.word (textSize front)).takes = false := hleft _ hends
    have hslice : slice? (front ++ (text ++ next)) (textSize front)
        (textSize front + textSize text) = some text :=
      slice?_eq_some_iff.mpr ⟨front, next, rfl, rfl, rfl⟩
    have hperiod : (0 < textSize front ∧
        byteAt (front ++ (text ++ next)) (textSize front - 1) = some '.') ↔
          front.getLast? = some '.' := byteBefore_eq_some_iff _ (by decide)
    refine ⟨1, Nat.le_refl 1, .yields hbelow ?_ (.stays _)⟩
    simp only [turn, Lexeme.lastMode, Lexeme.text, hstop, leave, hslice, hperiod,
      Bool.false_eq_true, if_false, byteSize_eq_textSize]
  | number text =>
    have hstop := hleft .number hends
    refine ⟨1, Nat.le_refl 1, .one hbelow ?_⟩
    simp only [turn, Lexeme.lastMode, hstop, leave, Bool.false_eq_true, if_false]
  | lineComment text =>
    have hstop := hleft .line fun c hc => decide_eq_false (not_not_intro (hends c hc))
    refine ⟨1, Nat.le_refl 1, .one hbelow ?_⟩
    simp only [turn, Lexeme.lastMode, hstop, leave, Bool.false_eq_true, if_false]
  | openComment text =>
    obtain rfl : next = [] := List.head?_eq_none_iff.mp hends
    have hsize : textSize (front ++ (text ++ [])) = textSize front + textSize text := by
      rw [List.append_nil, textSize_append]
    have hend : byteAt (front ++ (text ++ [])) (textSize front + textSize text) = none :=
      byteAt_eq_none_iff.mpr hsize.le
    refine ⟨1, Nat.le_refl 1, .one hbelow ?_⟩
    simp only [turn, Lexeme.lastMode, Lexeme.text, inBlock, hend, hsize, Option.all_none, if_true,
      Nat.min_eq_right (Nat.le_add_right _ 2)]
  | blockComment text => exact ⟨0, Nat.zero_le 1, .stays _⟩
  | mark c => exact ⟨0, Nat.zero_le 1, .stays _⟩

/-- **Over a lexeme**, and out of it. -/
theorem goes_past (formed : lexeme.Formed) (hends : lexeme.EndsBefore next.head?) :
    ∃ count ≤ 3 * textSize lexeme.text,
      Goes (front ++ (lexeme.text ++ next)) (textSize front + textSize lexeme.text + 1) count
        ⟨textSize front, .between⟩
        (lexeme.word? (textSize front) (decide (front.getLast? = some '.'))).toList
        ⟨textSize front + textSize lexeme.text, .between⟩ := by
  obtain ⟨inside, hinside, hover⟩ := goes_lexeme front formed hends
  obtain ⟨outside, houtside, hleft⟩ := goes_left front hends
  have hpos := formed.textSize_pos
  exact ⟨inside + outside, by omega, (hover.mono (Nat.le_succ _)).trans hleft⟩

end Lexemes

/-! ## 5. Over a text -/

/-- **Over the lexemes of a text**, with their words.  Of what stands before a word only a period
counts, which is the byte before it. -/
theorem goes_lexemes : ∀ {ls : List Lexeme} (front : List Char) (afterPeriod : Bool), IsCut ls →
    (∀ text after, ls = .word text :: after →
      (afterPeriod = true ↔ front.getLast? = some '.')) →
    ∃ count ≤ 3 * textSize (textOf ls),
      Goes (front ++ textOf ls) (textSize (front ++ textOf ls) + 1) count
        ⟨textSize front, .between⟩ (wordsFrom (textSize front) afterPeriod ls)
        ⟨textSize (front ++ textOf ls), .between⟩
  | [], front, _, _, _ => by
    refine ⟨0, Nat.zero_le _, ?_⟩
    rw [textOf_nil, List.append_nil]
    exact .stays _
  | lexeme :: rest, front, afterPeriod, h, hperiod => by
    obtain ⟨formed, hends, hrest⟩ := isCut_cons h
    have hnext : ∀ text after, rest = .word text :: after →
        (lexeme.isPeriod = true ↔ (front ++ lexeme.text).getLast? = some '.') := by
      rintro text after rfl
      have hcut : IsCut ([lexeme] ++ .word text :: after) := h
      obtain ⟨-, hlast⟩ := hcut.last_before_word
      rw [textOf_cons, textOf_nil, List.append_nil] at hlast
      rw [List.getLast?_append_of_ne_nil _ formed.text_ne_nil]
      exact hlast
    have hfirst : lexeme.word? (textSize front) (decide (front.getLast? = some '.')) =
        lexeme.word? (textSize front) afterPeriod := by
      cases lexeme with
      | word text =>
        have hsame := hperiod text rest rfl
        simp only [Lexeme.word?, ← hsame, Bool.decide_eq_true]
      | _ => rfl
    obtain ⟨count, hcount, hpast⟩ := goes_past front formed hends
    obtain ⟨more, hmore, hlater⟩ := goes_lexemes (front ++ lexeme.text) _ hrest hnext
    rw [List.append_assoc, textSize_append front lexeme.text, ← textOf_cons] at hlater
    rw [← textOf_cons, hfirst] at hpast
    have hlimit : textSize front + textSize lexeme.text + 1 ≤
        textSize (front ++ textOf (lexeme :: rest)) + 1 := by
      rw [textSize_append, textOf_cons, textSize_append]
      omega
    refine ⟨count + more, ?_, ?_⟩
    · rw [textOf_cons, textSize_append]
      omega
    · rw [wordsFrom_cons]
      exact (hpast.mono hlimit).trans hlater

/-- **The scanner ends**, with the words of the text, in at most three turns for a byte and one. -/
theorem run_eq_words {source : String} {fuel : Nat} (h : 3 * source.utf8ByteSize < fuel) :
    run source.toList fuel start = some (words source) := by
  have hall : textOf (lexemes source.toList) = source.toList := flatMap_text_lexemes _
  obtain ⟨count, hcount, hgoes⟩ :=
    goes_lexemes [] false (isCut_lexemes source.toList) fun _ _ _ =>
      iff_of_false Bool.false_ne_true fun h => by cases h
  rw [List.nil_append, hall] at hgoes
  rw [hall, ← utf8ByteSize_eq_textSize] at hcount
  obtain ⟨more, rfl⟩ := Nat.exists_eq_add_of_lt (Nat.lt_of_le_of_lt hcount h)
  have hended : turn source.toList ⟨textSize source.toList, .between⟩ = .ended := by
    simp only [turn, enter, byteAt_eq_none_iff.mpr (Nat.le_refl _)]
  have hrun := hgoes.run (more + 1)
  rw [run, hended] at hrun
  exact hrun.trans (congrArg some (List.append_nil _))

/-- **The end of a text** is inside of a block comment exactly if the text does not close one. -/
theorem endMode_lexemes : ∀ {ls : List Lexeme} (front : List Char) {fuel : Nat}, IsCut ls →
    3 * textSize (textOf ls) < fuel →
    ∃ mode, endMode (front ++ textOf ls) fuel ⟨textSize front, .between⟩ = some mode ∧
      (mode = .block ↔ ∃ l ∈ ls, l.isOpen = true)
  | [], front, fuel + 1, _, _ => by
    refine ⟨.between, ?_, iff_of_false (fun h => by cases h) ?_⟩
    · rw [endMode, textOf_nil, List.append_nil, if_pos (Nat.le_refl _)]
    · rintro ⟨l, hl, -⟩
      exact absurd hl List.not_mem_nil
  | [lexeme], front, fuel, h, hfuel => by
    obtain ⟨formed, hends, -⟩ := isCut_cons h
    obtain ⟨count, hcount, hover⟩ := goes_lexeme front formed hends
    have hpos := formed.textSize_pos
    have hall : textOf [lexeme] = lexeme.text ++ textOf [] := textOf_cons lexeme []
    have hsize : textSize (front ++ (lexeme.text ++ textOf [])) =
        textSize front + textSize lexeme.text := by
      rw [textOf_nil, List.append_nil, textSize_append]
    rw [hall, textOf_nil, List.append_nil] at hfuel
    obtain ⟨more, rfl⟩ : ∃ more, fuel = count + (more + 1) :=
      Nat.exists_eq_add_of_lt (show count < fuel by omega)
    refine ⟨lexeme.lastMode (textSize front), ?_, ?_⟩
    · rw [hall, hover.endMode hsize.ge, endMode, if_pos hsize.le]
    · cases lexeme <;> simp [Lexeme.lastMode, Lexeme.isOpen]
  | lexeme :: next :: rest, front, fuel, h, hfuel => by
    obtain ⟨formed, hends, hrest⟩ := isCut_cons h
    obtain ⟨count, hcount, hpast⟩ := goes_past front formed hends
    have hnext := (isCut_cons hrest).1
    have hpos := hnext.textSize_pos
    have hclosed : lexeme.isOpen = false := h.isOpen_eq_false
    have hall : textOf (lexeme :: next :: rest) = lexeme.text ++ textOf (next :: rest) :=
      textOf_cons _ _
    have hsize : textSize (front ++ (lexeme.text ++ textOf (next :: rest))) =
        textSize front + textSize lexeme.text + textSize (textOf (next :: rest)) := by
      rw [textSize_append, textSize_append, Nat.add_assoc]
    have hlater : 0 < textSize (textOf (next :: rest)) := by
      rw [textOf_cons, textSize_append]
      omega
    rw [hall, textSize_append] at hfuel
    obtain ⟨more, rfl⟩ : ∃ more, fuel = count + more :=
      Nat.exists_eq_add_of_le (show count ≤ fuel by omega)
    obtain ⟨mode, hmode, hiff⟩ :=
      endMode_lexemes (front ++ lexeme.text) hrest (show _ < more by omega)
    rw [List.append_assoc, textSize_append front lexeme.text] at hmode
    refine ⟨mode, ?_, ?_⟩
    · rw [hall, hpast.endMode (by omega), hmode]
    · simp only [List.mem_cons, exists_eq_or_imp, hclosed, Bool.false_eq_true, false_or] at hiff ⊢
      exact hiff

/-- **A text closes its block comments** exactly if the scanner is inside of none when it comes to
the end. -/
theorem endMode_eq_some {source : String} {fuel : Nat} (h : 3 * source.utf8ByteSize < fuel) :
    ∃ mode, endMode source.toList fuel start = some mode ∧
      (mode ≠ .block ↔ ClosesComments source.toList) := by
  have hall : textOf (lexemes source.toList) = source.toList := flatMap_text_lexemes _
  rw [utf8ByteSize_eq_textSize, ← hall] at h
  obtain ⟨mode, hmode, hiff⟩ := endMode_lexemes [] (isCut_lexemes source.toList) h
  rw [List.nil_append, hall] at hmode
  refine ⟨mode, hmode, (not_congr hiff).trans ?_⟩
  simp only [ClosesComments, not_exists, not_and, Bool.not_eq_true]

end Scanner

/-! ## 6. Line by line -/

/-- **A text is scanned line by line.**  Behind a line that closes its comments the words are those
of the rest, each as far behind as the line and its end are long; so the references of expressions
that close their comments are those of each expression.  The words of a text are maximal runs of
word characters, in order and apart, and the text is cut at places only.  The scanner finds them in
at most three turns for a byte, whatever the text is, and it tells from what it is inside of at the
end whether the text closes its comments. -/
theorem scanned_line_by_line :
    (∀ line rest : String, ClosesComments line.toList →
      words (line ++ "\n" ++ rest) =
        words line ++ (words rest).map (Word.shift (line.utf8ByteSize + 1))) ∧
    (∀ assignments : List (Component × String),
      (∀ assignment ∈ assignments, ClosesComments assignment.2.toList) → ∀ name members,
        countReferences (Body.components assignments).text name members =
          totalReferences name members (assignments.map Prod.snd)) ∧
    ∀ source : String,
      (∀ word ∈ words source, word.StandsIn source.toList ∧ word.start < word.stop ∧
        slice? source.toList word.start word.stop = some word.text.toList ∧
        IsPlace source.toList word.start ∧ IsPlace source.toList word.stop) ∧
      (words source).Pairwise (fun earlier later => earlier.stop < later.start) ∧
      ∀ fuel, 3 * source.utf8ByteSize < fuel →
        Scanner.run source.toList fuel .start = some (words source) ∧
          ∃ mode, Scanner.endMode source.toList fuel .start = some mode ∧
            (mode ≠ .block ↔ ClosesComments source.toList) := by
  refine ⟨fun line rest closed => words_line closed rest, fun assignments closed name members => ?_,
    fun source => ⟨fun word hword => ?_, words_apart source, fun fuel hfuel => ?_⟩⟩
  · exact countReferences_intercalate (List.forall_mem_map.mpr closed)
  · have stands := stands_of_mem_words hword
    exact ⟨stands, stands.start_lt, slice?_eq_some_iff.mpr stands.isPart, stands.isPart.isPlace⟩
  · exact ⟨Scanner.run_eq_words hfuel, Scanner.endMode_eq_some hfuel⟩

namespace Example

/-- A member, a slash, and a line comment at the end. -/
def bright : String := "x.y / // é"

/-- A member of what is no word, and a comment that is not closed. -/
def dim : String := "é.x1 /* x"

/-- The comment ends with its line, and the slash starts none; the words behind it keep the mark of
a period, and the scanner ends inside of the comment that is not closed. -/
theorem bright_line_by_line :
    ClosesComments bright.toList ∧
      words (bright ++ "\n" ++ dim) = [⟨"x", 0, 1, false⟩, ⟨"y", 2, 3, true⟩, ⟨"x1", 15, 17, true⟩] ∧
      countReferences (Body.components [(.alpha, bright), (.shininess, "x*x")]).text "x" false = 3 ∧
      Scanner.run dim.toList 99 .start = some [⟨"x1", 3, 5, true⟩] ∧
      ¬ ClosesComments dim.toList := by
  obtain ⟨hwords, hreferences, hscans⟩ := scanned_line_by_line
  obtain ⟨hclosed, hclosed', hbright, hdim, hsize, htotal, hopen⟩ :
      ClosesComments bright.toList ∧ ClosesComments "x*x".toList ∧
        words bright = [⟨"x", 0, 1, false⟩, ⟨"y", 2, 3, true⟩] ∧
        words dim = [⟨"x1", 3, 5, true⟩] ∧ bright.utf8ByteSize = 11 ∧
        totalReferences "x" false [bright, "x*x"] = 3 ∧ ¬ ClosesComments dim.toList := by
    decide +kernel
  refine ⟨hclosed, ?_, ?_, ?_, hopen⟩
  · rw [hwords bright dim hclosed, hbright, hdim, hsize]
    rfl
  · refine (hreferences _ ?_ "x" false).trans htotal
    exact List.forall_mem_cons.mpr ⟨hclosed, List.forall_mem_singleton.mpr hclosed'⟩
  · rw [((hscans dim).2.2 99 (by decide)).1, hdim]

end Example

end ShaderFabric
