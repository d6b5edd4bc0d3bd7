/-
# Reading what is written, token by token

A document is laid out as the text of its tokens with blanks between them, and the scanner finds
just these tokens again.  Strings are escaped so that they end where they are to end; numbers end at
the comma or the line end that comes after them.

Whether the decimal of a float is read back as that float is a matter of arithmetic, which is not
settled here: it is asked of each float of the document (`ReadsBack`).

* `Document.tokens` -- the tokens of a document;
* `scan_quote`, `scan_int`, `scan_float` -- scalars;
* `scan_layout` -- what a document is laid out as.
-/
import Mathlib.Data.List.TakeWhile
import ShaderFabric.Json.Printer
import ShaderFabric.Proofs.Json.Plain

namespace ShaderFabric

namespace Json

/-! ## 1. Tokens among characters -/

theorem scan_skip : ∀ (cs rest : List Char), Token.scan cs.length (cs ++ rest) = Token.scan 0 rest
  | [], _ => rfl
  | c :: cs, rest => by
    rw [List.length_cons, List.cons_append, Token.scan]
    exact scan_skip cs rest

theorem scan_blanks : ∀ {cs : List Char}, (∀ c ∈ cs, isBlank c = true) → ∀ rest,
    Token.scan 0 (cs ++ rest) = Token.scan 0 rest
  | [], _, _ => rfl
  | c :: cs, h, rest => by
    obtain ⟨hfirst, hcs⟩ := List.forall_mem_cons.mp h
    rw [List.cons_append, Token.scan, if_pos hfirst]
    exact scan_blanks hcs rest

theorem scan_lineAt (level : Nat) (rest : List Char) :
    Token.scan 0 ((lineAt level).toList ++ rest) = Token.scan 0 rest := by
  refine scan_blanks (fun c hmem => ?_) rest
  rw [lineAt, String.toList_ofList] at hmem
  rcases List.mem_cons.mp hmem with rfl | hmem
  · rfl
  · rw [List.eq_of_mem_replicate hmem]
    rfl

/-- A scalar that takes some characters, whatever comes after it. -/
theorem scan_scalar {c : Char} {cs rest : List Char} {value : Document} (hblank : isBlank c = false)
    (h : Token.first c (cs ++ rest) = (.scalar value, cs.length + 1)) :
    Token.scan 0 (c :: cs ++ rest) = .scalar value :: Token.scan 0 rest := by
  rw [List.cons_append, Token.scan, if_neg (by rw [hblank]; exact Bool.false_ne_true), h]
  exact congrArg _ (scan_skip cs rest)

/-! ## 2. Strings -/

theorem hexDigit?_hexChar : ∀ n < 16, hexDigit? (hexChar n) = some n := by
  decide

/-- The four digits that a control character is escaped as. -/
theorem hexUnit?_control {n : Nat} (h : n < 0x20) :
    hexUnit? '0' '0' (hexChar (n / 16)) (hexChar (n % 16)) = some n := by
  have hzero : hexDigit? '0' = some 0 := rfl
  unfold hexUnit?
  rw [hzero, hexDigit?_hexChar _ (by omega), hexDigit?_hexChar _ (by omega)]
  show some (((0 * 16 + 0) * 16 + n / 16) * 16 + n % 16) = some n
  rw [show ((0 * 16 + 0) * 16 + n / 16) * 16 + n % 16 = n by omega]

theorem quoted_letter {e c : Char} (he : e ≠ 'u') (h : escape? e = some c) (taken : Nat)
    (text rest : List Char) :
    quoted none taken text ('\\' :: e :: rest) = quoted none (taken + 2) (c :: text) rest :=
  quoted.eq_5 _ _ _ _ _ (fun _ _ _ _ _ hu _ => he hu) h

/-- A character that stands for itself. -/
theorem quoted_plain {c : Char} (hslash : c ≠ '\\') (taken : Nat) (text rest : List Char) :
    quoted none taken text (c :: rest) =
      if c = '"' then some (String.ofList text.reverse, taken + 1)
      else if c.toNat < 0x20 then none else quoted none (taken + 1) (c :: text) rest := by
  refine (quoted.eq_7 _ _ _ _ _ (fun _ _ _ _ _ heq _ => hslash heq)
    fun _ _ heq _ => hslash heq).trans ?_
  rw [if_neg (by decide)]
  simp only [hslash, false_or]

/-- **An escaped character is read as itself.** -/
theorem quoted_escaped (taken : Nat) (text : List Char) (c : Char) (rest : List Char) :
    quoted none taken text (escaped c ++ rest) =
      quoted none (taken + (escaped c).length) (c :: text) rest := by
  unfold escaped
  split
  · exact quoted_letter (by decide) rfl taken text rest
  · exact quoted_letter (by decide) rfl taken text rest
  · exact quoted_letter (by decide) rfl taken text rest
  · exact quoted_letter (by decide) rfl taken text rest
  · exact quoted_letter (by decide) rfl taken text rest
  · exact quoted_letter (by decide) rfl taken text rest
  · exact quoted_letter (by decide) rfl taken text rest
  · rename_i hquote hslash _ _ _ _ _
    split
    · rename_i hcontrol
      have hunit := hexUnit?_control hcontrol
      refine (quoted.eq_3 _ _ _ _ _ _ _ _ hunit).trans ?_
      rw [if_neg (by omega), if_neg (by omega), Char.ofNat_toNat]
      rfl
    · rename_i hcontrol
      exact (quoted_plain hslash taken text rest).trans
        ((if_neg hquote).trans (if_neg hcontrol))

theorem quoted_flatMap : ∀ (cs : List Char) (taken : Nat) (text rest : List Char),
    quoted none taken text (cs.flatMap escaped ++ '"' :: rest) =
      some (String.ofList (text.reverse ++ cs), taken + (cs.flatMap escaped).length + 1)
  | [], taken, text, rest => by
    rw [List.flatMap_nil, List.nil_append, List.append_nil]
    exact (quoted_plain (by decide) taken text rest).trans (if_pos rfl)
  | c :: cs, taken, text, rest => by
    rw [List.flatMap_cons, List.append_assoc, quoted_escaped, quoted_flatMap cs, List.reverse_cons,
      List.append_assoc, List.length_append, Nat.add_assoc taken]
    rfl

/-- **A string is read as what it is written for.** -/
theorem scan_quote (text : String) (rest : List Char) :
    Token.scan 0 ((quote text).toList ++ rest) =
      .scalar (.text text) :: Token.scan 0 rest := by
  rw [quote, String.toList_ofList]
  refine @scan_scalar '"' (text.toList.flatMap escaped ++ ['"']) rest _ rfl ?_
  rw [List.append_assoc, List.singleton_append, Token.first, quoted_flatMap text.toList 0 [] rest]
  simp only [List.reverse_nil, List.nil_append, String.ofList_toList, Nat.zero_add,
    List.length_append, List.length_singleton]

/-! ## 3. Numbers -/

theorem ofDigitChars_cons (c : Char) (digits : List Char) (n : Nat) :
    Nat.ofDigitChars 10 (c :: digits) n = Nat.ofDigitChars 10 digits (10 * n + digitValue c) := by
  unfold Nat.ofDigitChars digitValue
  rw [List.foldl_cons]

theorem le_ofDigitChars : ∀ (digits : List Char) (n : Nat), n ≤ Nat.ofDigitChars 10 digits n
  | [], n => Nat.le_refl n
  | c :: rest, n => by
    have hrest := le_ofDigitChars rest (10 * n + digitValue c)
    rw [ofDigitChars_cons]
    omega

theorem digitValue_lt {c : Char} (h : c.isDigit = true) : digitValue c < 10 := by
  have hhigh : c.toNat ≤ 57 := by
    unfold Char.isDigit at h
    simp only [Bool.and_eq_true, decide_eq_true_eq] at h
    exact h.2
  have hzero : '0'.toNat = 48 := rfl
  unfold digitValue
  omega

theorem ofDigitChars_lt : ∀ {digits : List Char} {n : Nat}, (∀ c ∈ digits, c.isDigit = true) →
    Nat.ofDigitChars 10 digits n < (n + 1) * 10 ^ digits.length
  | [], n, _ => by
    show n < (n + 1) * 1
    omega
  | c :: rest, n, h => by
    obtain ⟨hfirst, hrest⟩ := List.forall_mem_cons.mp h
    have hvalue := digitValue_lt hfirst
    calc Nat.ofDigitChars 10 rest (10 * n + digitValue c)
        < (10 * n + digitValue c + 1) * 10 ^ rest.length := ofDigitChars_lt hrest
      _ ≤ (n + 1) * 10 * 10 ^ rest.length := Nat.mul_le_mul_right _ (by omega)
      _ = (n + 1) * 10 ^ (rest.length + 1) := by rw [Nat.mul_assoc, Nat.pow_succ']

/-- Digits of a number that fits a word are all kept. -/
theorem takeDigits_eq : ∀ {digits : List Char} {significand : Nat},
    Nat.ofDigitChars 10 digits significand ≤ largestWord →
      takeDigits significand digits = (Nat.ofDigitChars 10 digits significand, 0)
  | [], _, _ => rfl
  | c :: rest, significand, h => by
    rw [ofDigitChars_cons] at h ⊢
    have hle := Nat.le_trans (le_ofDigitChars rest (10 * significand + digitValue c)) h
    rw [Nat.mul_comm] at hle
    rw [takeDigits, if_pos hle, Nat.mul_comm]
    exact takeDigits_eq h

theorem takeWhile_toDigits (n : Nat) :
    (Nat.toDigits 10 n).takeWhile Char.isDigit = Nat.toDigits 10 n :=
  List.takeWhile_eq_self_iff.mpr fun _ hmem =>
    Nat.isDigit_of_mem_toDigits (by decide) (by decide) hmem

/-- A number of several digits does not start with a zero. -/
theorem head?_toDigits {n : Nat} (h : (Nat.toDigits 10 n).length > 1) :
    (Nat.toDigits 10 n).head? ≠ some '0' := by
  intro hzero
  obtain ⟨rest, hdigits⟩ := List.head?_eq_some_iff.mp hzero
  have hmem : ∀ c ∈ rest, c.isDigit = true := fun c hc =>
    Nat.isDigit_of_mem_toDigits (by decide) (by decide)
      (hdigits ▸ List.mem_cons_of_mem '0' hc : c ∈ Nat.toDigits 10 n)
  have hvalue : Nat.ofDigitChars 10 rest 0 = n := by
    rw [← Nat.ofDigitChars_ten_toDigits (n := n), hdigits]
    rfl
  have hlt := ofDigitChars_lt hmem (n := 0)
  rw [hvalue, Nat.zero_add, Nat.one_mul] at hlt
  rw [hdigits, List.length_cons] at h
  have hshort := (Nat.length_toDigits_le_iff (by decide) (by omega)).mpr hlt
  rw [hdigits, List.length_cons] at hshort
  omega

/-- A digit starts a number. -/
theorem first_of_isDigit {c : Char} (h : c.isDigit = true) (rest : List Char) :
    isBlank c = false ∧ Token.first c rest = unsigned false (c :: rest) := by
  constructor
  · refine eq_false_of_ne_true fun hblank => ?_
    simp only [isBlank, Bool.or_eq_true, decide_eq_true_eq] at hblank
    rcases hblank with ((rfl | rfl) | rfl) | rfl
    · exact absurd h (by decide)
    · exact absurd h (by decide)
    · exact absurd h (by decide)
    · exact absurd h (by decide)
  · unfold Token.first
    split
    case h_12 => exact if_pos h
    all_goals exact absurd h (by decide)

/-- **Digits are read as their number.** -/
theorem unsigned_toDigits {n : Nat} (h : n ≤ largestWord) (negative : Bool) {rest : List Char}
    (stops : Stops rest) :
    unsigned negative (Nat.toDigits 10 n ++ rest) =
      wholeToken negative (Nat.toDigits 10 n).length (n, 0) := by
  have hempty : ¬ ((Nat.toDigits 10 n).isEmpty = true) := by
    rw [List.isEmpty_iff]
    exact Nat.toDigits_ne_nil
  have hdigits : takeDigits 0 (Nat.toDigits 10 n) = (n, 0) := by
    rw [takeDigits_eq (by rw [Nat.ofDigitChars_ten_toDigits]; exact h),
      Nat.ofDigitChars_ten_toDigits]
  rw [unsigned_append stops, unsigned_eq]
  dsimp only
  rw [takeWhile_toDigits, if_neg (not_or.mpr ⟨hempty, fun hboth => head?_toDigits hboth.1 hboth.2⟩),
    hdigits, List.drop_length]
  rfl

/-- Digits are a whole number to the scanner. -/
theorem scan_toDigits {n : Nat} (h : n ≤ largestWord) {rest : List Char} (stops : Stops rest) :
    Token.scan 0 (Nat.toDigits 10 n ++ rest) = .scalar (.int n) :: Token.scan 0 rest := by
  have hunsigned := unsigned_toDigits h false stops
  cases hcs : Nat.toDigits 10 n with
  | nil => exact absurd hcs Nat.toDigits_ne_nil
  | cons c cs =>
    have hdigit : c.isDigit = true :=
      Nat.isDigit_of_mem_toDigits (by decide) (by decide)
        (hcs ▸ List.mem_cons_self : c ∈ Nat.toDigits 10 n)
    rw [hcs] at hunsigned
    obtain ⟨hblank, hfirst⟩ := first_of_isDigit hdigit (cs ++ rest)
    exact scan_scalar hblank (hfirst.trans hunsigned)

/-- **A whole number of sixty-four bits is read as what it is written for.** -/
theorem scan_int {value : Int} (hlow : -0x8000000000000000 ≤ value) (hhigh : value ≤ largestWord)
    {rest : List Char} (stops : Stops rest) :
    Token.scan 0 ((toString value).toList ++ rest) = .scalar (.int value) :: Token.scan 0 rest := by
  cases value with
  | ofNat n =>
    have hdigits : (toString (Int.ofNat n)).toList = Nat.toDigits 10 n := Nat.toList_repr
    rw [hdigits]
    exact scan_toDigits (Int.ofNat_le.mp hhigh) stops
  | negSucc n =>
    have hdigits : (toString (Int.negSucc n)).toList = '-' :: Nat.toDigits 10 (n + 1) := by
      show ("-" ++ (n + 1).repr).toList = _
      rw [String.toList_append, Nat.toList_repr]
      rfl
    have hle : n + 1 ≤ 0x8000000000000000 := by omega
    have hword : n + 1 ≤ largestWord := Nat.le_trans hle (by decide)
    rw [hdigits]
    refine scan_scalar rfl ?_
    show ((unsigned true (Nat.toDigits 10 (n + 1) ++ rest)).1,
      (unsigned true (Nat.toDigits 10 (n + 1) ++ rest)).2 + 1) = _
    rw [unsigned_toDigits hword true stops]
    have hsmall : ¬ (n + 1 = 0 ∨ 0x8000000000000000 < n + 1) := by omega
    rw [wholeToken, if_neg (fun h => h rfl), if_neg (by decide), if_neg hsmall]
    rfl

/-! ## 4. Floats -/

/-- A machine that is inside some container, or has finished with one or without a whole tree. -/
def State.Inside : State → Prop
  | value frames => frames ≠ []
  | finished reading => reading.complete = true → ∀ x, reading.document ≠ .float x
  | _ => True

theorem inside_giveList (items : List Document) (frames : List Frame) :
    (give (.list items) frames).Inside := by
  cases frames with
  | nil => exact fun _ _ => Document.noConfusion
  | cons frame rest => cases frame <;> trivial

theorem inside_giveObject (members : List (String × Document)) (frames : List Frame) :
    (give (.object members) frames).Inside := by
  cases frames with
  | nil => exact fun _ _ => Document.noConfusion
  | cons frame rest => cases frame <;> trivial

theorem inside_stop (state : State) : state.stop.Inside := by
  cases state <;> exact nofun

theorem inside_takeValue (state : State) {frames : List Frame} (h : frames ≠ [])
    (token : Token) : (state.takeValue frames token).Inside := by
  cases token with
  | scalar value =>
    cases frames with
    | nil => exact absurd rfl h
    | cons frame rest => cases frame <;> trivial
  | openList | openObject =>
    rw [State.takeValue]
    split
    · trivial
    · exact fun h => absurd h Bool.false_ne_true
  | closeList | closeObject | comma | colon | fault => exact inside_stop state

theorem inside_step {state : State} (h : state.Inside) (token : Token) :
    (state.step token).Inside := by
  unfold State.step
  split
  · exact inside_takeValue _ h token
  · exact inside_giveList _ _
  · exact inside_takeValue _ (List.cons_ne_nil _ _) _
  · exact List.cons_ne_nil _ _
  · exact inside_giveList _ _
  · exact inside_giveObject _ _
  · trivial
  · trivial
  · exact List.cons_ne_nil _ _
  · trivial
  · exact inside_giveObject _ _
  · exact inside_stop state

theorem inside_run {x : Double} : ∀ {tokens : List Token} {state : State}, state.Inside →
    run state tokens ≠ ⟨.float x, true⟩
  | [], state, h, heq => by
    cases state with
    | finished reading =>
      have hreading : reading = ⟨.float x, true⟩ := heq
      subst hreading
      exact h rfl x rfl
    | _ => exact absurd (congrArg Reading.complete heq) Bool.false_ne_true
  | token :: rest, state, h, heq => by
    rcases run_cons state token rest with hrun | hrun
    · exact inside_run (inside_step h token) (hrun.symm.trans heq)
    · rw [heq] at hrun
      cases hrun

/-- **A text that is read as a float is the token of a float.** -/
theorem scan_of_read {text : String} {x : Double} (h : read text = ⟨.float x, true⟩) :
    Token.scan 0 text.toList = [.scalar (.float x)] := by
  unfold read at h
  cases hscan : Token.scan 0 text.toList with
  | nil =>
    rw [hscan] at h
    cases h
  | cons token rest =>
    rw [hscan] at h
    have hstep : run ((State.value []).step token) rest = ⟨.float x, true⟩ := h
    cases token with
    | scalar value =>
      cases rest with
      | nil =>
        have hvalue : (⟨value, true⟩ : Reading) = ⟨.float x, true⟩ := hstep
        cases hvalue
        rfl
      | cons next rest => cases hstep
    | openList | openObject => exact absurd hstep (inside_run (by trivial))
    | closeList | closeObject | comma | colon | fault =>
      exact absurd hstep (inside_run (inside_stop (.value [])))

/-- A float is read from its first character on, whatever comes after it. -/
theorem first_append {c : Char} {cs rest : List Char} {x : Double} (stops : Stops rest)
    (h : (Token.first c cs).1 = .scalar (.float x)) :
    Token.first c (cs ++ rest) = Token.first c cs ∧ (Token.first c cs).2 ≤ cs.length + 1 := by
  have hnumber : ∀ negative ds, (unsigned negative ds).1 = .scalar (.float x) →
      (unsigned negative ds).2 ≤ ds.length := by
    intro negative ds hfloat
    refine (length_unsigned_le negative ds).resolve_left fun hfault => ?_
    rw [hfloat] at hfault
    cases hfault
  by_cases hminus : c = '-'
  · subst hminus
    have hunsigned : (unsigned true cs).1 = .scalar (.float x) := h
    refine ⟨?_, Nat.succ_le_succ (hnumber true cs hunsigned)⟩
    show ((unsigned true (cs ++ rest)).1, (unsigned true (cs ++ rest)).2 + 1) = _
    rw [unsigned_append stops]
    rfl
  · by_cases hdigit : c.isDigit = true
    · rw [(first_of_isDigit hdigit _).2] at h
      rw [(first_of_isDigit hdigit _).2, (first_of_isDigit hdigit _).2, ← List.cons_append,
        unsigned_append stops]
      exact ⟨rfl, hnumber false (c :: cs) h⟩
    · exfalso
      unfold Token.first at h
      split at h
      -- strings and words are no floats, and everything else but a number stands for no data
      case h_7 | h_9 | h_10 | h_11 => split at h <;> cases h
      case h_8 => exact hminus rfl
      case h_12 =>
        rw [if_neg hdigit] at h
        cases h
      all_goals cases h

/-- Blanks at the end of a token are skipped, whatever comes after them. -/
theorem scan_append_of_nil {rest : List Char} : ∀ {cs : List Char} {skip : Nat},
    skip ≤ cs.length → Token.scan skip cs = [] →
      Token.scan skip (cs ++ rest) = Token.scan 0 rest
  | [], skip, hskip, _ => by
    rw [Nat.le_zero.mp hskip]
    rfl
  | c :: cs, skip + 1, hskip, h => by
    rw [Token.scan] at h
    rw [List.cons_append, Token.scan]
    exact scan_append_of_nil (Nat.le_of_succ_le_succ hskip) h
  | c :: cs, 0, hskip, h => by
    rw [Token.scan] at h
    rw [List.cons_append, Token.scan]
    split at h
    · rename_i hblank
      rw [if_pos hblank]
      exact scan_append_of_nil (Nat.zero_le _) h
    · split at h <;> cases h

/-- **The token of a float is found wherever its text stands.** -/
theorem scan_append {x : Double} {rest : List Char} (stops : Stops rest) : ∀ {cs : List Char},
    Token.scan 0 cs = [.scalar (.float x)] →
      Token.scan 0 (cs ++ rest) = .scalar (.float x) :: Token.scan 0 rest
  | [], h => by cases h
  | c :: cs, h => by
    rw [Token.scan] at h
    rw [List.cons_append, Token.scan]
    split at h
    · rename_i hblank
      rw [if_pos hblank]
      exact scan_append stops h
    · rename_i hblank
      rw [if_neg hblank]
      split at h
      · cases h
      · rename_i token length hfault heq
        obtain ⟨htoken, hcs⟩ := List.cons.inj h
        obtain ⟨hfirst, hlength⟩ := @first_append c cs rest x stops (by rw [heq]; exact htoken)
        rw [heq] at hfirst hlength
        rw [hfirst, htoken]
        exact congrArg _ (scan_append_of_nil (by omega) hcs)

/-- A float whose text is read back as the same float. -/
def ReadsBack (x : Double) : Prop := read (floatText x) = ⟨.float x, true⟩

/-- The float that a text is read as to its end. -/
def floatOf? : Reading → Option Double
  | ⟨.float x, true⟩ => some x
  | _ => none

theorem floatOf?_eq_some {reading : Reading} {x : Double} :
    floatOf? reading = some x ↔ reading = ⟨.float x, true⟩ := by
  constructor
  · intro h
    unfold floatOf? at h
    split at h
    · cases h
      rfl
    · cases h
  · rintro rfl
    rfl

instance (x : Double) : Decidable (ReadsBack x) :=
  decidable_of_iff (floatOf? (read (floatText x)) = some x) floatOf?_eq_some

theorem scan_float {x : Double} (h : ReadsBack x) {rest : List Char} (stops : Stops rest) :
    Token.scan 0 ((floatText x).toList ++ rest) = .scalar (.float x) :: Token.scan 0 rest :=
  scan_append stops (scan_of_read h)

end Json

/-! ## 5. Documents -/

namespace Document

mutual

/-- **The tokens of a document.** -/
def tokens : Document → List Json.Token
  | .list [] => [.openList, .closeList]
  | .list (item :: rest) => .openList :: (tokens item ++ (itemTokens rest ++ [.closeList]))
  | .object [] => [.openObject, .closeObject]
  | .object ((name, value) :: rest) =>
    .openObject :: .scalar (.text name) :: .colon :: (tokens value ++
      (memberTokens rest ++ [.closeObject]))
  | other => [.scalar other]

/-- The tokens of the items after the first one. -/
def itemTokens : List Document → List Json.Token
  | [] => []
  | item :: rest => .comma :: (tokens item ++ itemTokens rest)

def memberTokens : List (String × Document) → List Json.Token
  | [] => []
  | (name, value) :: rest =>
    .comma :: .scalar (.text name) :: .colon :: (tokens value ++ memberTokens rest)

end

mutual

/-- The floats of a document. -/
def floats : Document → List Double
  | .float x => [x]
  | .list items => itemFloats items
  | .object members => memberFloats members
  | _ => []

def itemFloats : List Document → List Double
  | [] => []
  | item :: rest => floats item ++ itemFloats rest

def memberFloats : List (String × Document) → List Double
  | [] => []
  | (_, value) :: rest => floats value ++ memberFloats rest

end

end Document

namespace Json

/-- A line end or a comma stops a number. -/
theorem stops_of_head {c : Char} (h : c = '\n' ∨ c = ',') (rest : List Char) :
    Stops (c :: rest) := by
  rintro d hd
  cases hd
  rcases h with rfl | rfl
  · decide
  · decide

theorem stops_lineAt (level : Nat) (rest : List Char) : Stops ((lineAt level).toList ++ rest) := by
  rw [lineAt, String.toList_ofList]
  exact stops_of_head (.inl rfl) _

theorem stops_layoutItems (level : Nat) (items : List Document) {rest : List Char}
    (h : Stops rest) : Stops ((layoutItems level items).toList ++ rest) := by
  cases items with
  | nil => exact h
  | cons item more =>
    rw [layoutItems]
    simp only [String.toList_append, List.append_assoc]
    exact stops_of_head (.inr rfl) _

theorem stops_layoutMembers (level : Nat) (members : List (String × Document)) {rest : List Char}
    (h : Stops rest) : Stops ((layoutMembers level members).toList ++ rest) := by
  cases members with
  | nil => exact h
  | cons member more =>
    obtain ⟨name, value⟩ := member
    rw [layoutMembers]
    simp only [String.toList_append, List.append_assoc]
    exact stops_of_head (.inr rfl) _

section Marks

variable (rest : List Char)

theorem scan_openList : Token.scan 0 ('[' :: rest) = .openList :: Token.scan 0 rest := rfl

theorem scan_closeList : Token.scan 0 (']' :: rest) = .closeList :: Token.scan 0 rest := rfl

theorem scan_openObject : Token.scan 0 ('\x7b' :: rest) = .openObject :: Token.scan 0 rest := rfl

theorem scan_closeObject : Token.scan 0 ('\x7d' :: rest) = .closeObject :: Token.scan 0 rest := rfl

theorem scan_comma : Token.scan 0 (',' :: rest) = .comma :: Token.scan 0 rest := rfl

theorem scan_colon : Token.scan 0 (':' :: ' ' :: rest) = .colon :: Token.scan 0 rest := rfl

end Marks

theorem toList_list (level : Nat) (item : Document) (more : List Document) (rest : List Char) :
    (layout level (.list (item :: more))).toList ++ rest =
      '[' :: ((lineAt (level + 1)).toList ++ ((layout (level + 1) item).toList ++
        ((layoutItems (level + 1) more).toList ++ ((lineAt level).toList ++ ']' :: rest)))) := by
  simp only [layout, String.toList_append, List.append_assoc]
  rfl

theorem toList_items (level : Nat) (item : Document) (more : List Document) (rest : List Char) :
    (layoutItems level (item :: more)).toList ++ rest =
      ',' :: ((lineAt level).toList ++ ((layout level item).toList ++
        ((layoutItems level more).toList ++ rest))) := by
  simp only [layoutItems, String.toList_append, List.append_assoc]
  rfl

theorem toList_object (level : Nat) (name : String) (value : Document)
    (more : List (String × Document)) (rest : List Char) :
    (layout level (.object ((name, value) :: more))).toList ++ rest =
      '\x7b' :: ((lineAt (level + 1)).toList ++ ((quote name).toList ++ ':' :: ' ' ::
        ((layout (level + 1) value).toList ++ ((layoutMembers (level + 1) more).toList ++
          ((lineAt level).toList ++ '\x7d' :: rest))))) := by
  simp only [layout, String.toList_append, List.append_assoc]
  rfl

theorem toList_members (level : Nat) (name : String) (value : Document)
    (more : List (String × Document)) (rest : List Char) :
    (layoutMembers level ((name, value) :: more)).toList ++ rest =
      ',' :: ((lineAt level).toList ++ ((quote name).toList ++ ':' :: ' ' ::
        ((layout level value).toList ++ ((layoutMembers level more).toList ++ rest)))) := by
  simp only [layoutMembers, String.toList_append, List.append_assoc]
  rfl

mutual

/-- **What a document is laid out as has its tokens**, wherever it stands. -/
theorem scan_layout : ∀ (document : Document) {depth level : Nat} {rest : List Char},
    document.Plain depth → (∀ x ∈ document.floats, ReadsBack x) → Stops rest →
      Token.scan 0 ((layout level document).toList ++ rest) =
        document.tokens ++ Token.scan 0 rest
  | .null, _, _, rest, _, _, _ => by
    rw [layout]
    rfl
  | .bool true, _, _, rest, _, _, _ => by
    rw [layout, if_pos rfl]
    rfl
  | .bool false, _, _, rest, _, _, _ => by
    rw [layout, if_neg Bool.false_ne_true]
    rfl
  | .int _, _, _, _, h, _, stops => scan_int h.int.1 h.int.2 stops
  | .float x, _, _, _, _, hfloats, stops =>
    scan_float (hfloats x (List.mem_singleton.mpr rfl)) stops
  | .text value, _, _, rest, _, _, _ => by
    rw [layout]
    exact scan_quote value rest
  | .unread, _, _, _, h, _, _ => absurd h Document.Plain.ne_unread
  | .list [], _, _, rest, _, _, _ => by
    rw [layout]
    exact (scan_openList (']' :: rest)).trans (congrArg _ (scan_closeList rest))
  | .list (item :: more), _, level, rest, h, hfloats, _ => by
    obtain ⟨_, -, hitems⟩ := h.list
    obtain ⟨hfirst, hmore⟩ := List.forall_mem_cons.mp hitems
    obtain ⟨hfloats, hmorefloats⟩ := List.forall_mem_append.mp hfloats
    have hclose := stops_lineAt level (']' :: rest)
    rw [toList_list, scan_openList, scan_lineAt, scan_layout item hfirst hfloats
      (stops_layoutItems (level + 1) more hclose), scan_items more hmore hmorefloats hclose,
      scan_lineAt, scan_closeList, Document.tokens]
    simp only [List.append_assoc, List.cons_append, List.nil_append]
  | .object [], _, _, rest, _, _, _ => by
    rw [layout]
    exact (scan_openObject ('\x7d' :: rest)).trans (congrArg _ (scan_closeObject rest))
  | .object ((name, value) :: more), _, level, rest, h, hfloats, _ => by
    obtain ⟨_, -, hmembers⟩ := h.object
    have hmore := fun key other hmem => hmembers key other (List.mem_cons_of_mem _ hmem)
    obtain ⟨hfloats, hmorefloats⟩ := List.forall_mem_append.mp hfloats
    have hclose := stops_lineAt level ('\x7d' :: rest)
    rw [toList_object, scan_openObject, scan_lineAt, scan_quote, scan_colon,
      scan_layout value (hmembers name value List.mem_cons_self) hfloats
        (stops_layoutMembers (level + 1) more hclose),
      scan_members more hmore hmorefloats hclose, scan_lineAt, scan_closeObject, Document.tokens]
    simp only [List.append_assoc, List.cons_append, List.nil_append]

theorem scan_items : ∀ (items : List Document) {depth level : Nat} {rest : List Char},
    (∀ item ∈ items, item.Plain depth) → (∀ x ∈ Document.itemFloats items, ReadsBack x) →
      Stops rest → Token.scan 0 ((layoutItems level items).toList ++ rest) =
        Document.itemTokens items ++ Token.scan 0 rest
  | [], _, _, _, _, _, _ => rfl
  | item :: more, _, level, rest, h, hfloats, stops => by
    obtain ⟨hfirst, hmore⟩ := List.forall_mem_cons.mp h
    obtain ⟨hfloats, hmorefloats⟩ := List.forall_mem_append.mp hfloats
    rw [toList_items, scan_comma, scan_lineAt, scan_layout item hfirst hfloats
      (stops_layoutItems level more stops), scan_items more hmore hmorefloats stops,
      Document.itemTokens]
    simp only [List.append_assoc, List.cons_append]

theorem scan_members : ∀ (members : List (String × Document)) {depth level : Nat}
    {rest : List Char}, (∀ name value, (name, value) ∈ members → value.Plain depth) →
      (∀ x ∈ Document.memberFloats members, ReadsBack x) → Stops rest →
        Token.scan 0 ((layoutMembers level members).toList ++ rest) =
          Document.memberTokens members ++ Token.scan 0 rest
  | [], _, _, _, _, _, _ => rfl
  | (name, value) :: more, _, level, rest, h, hfloats, stops => by
    have hmore := fun key other hmem => h key other (List.mem_cons_of_mem _ hmem)
    obtain ⟨hfloats, hmorefloats⟩ := List.forall_mem_append.mp hfloats
    rw [toList_members, scan_comma, scan_lineAt, scan_quote, scan_colon,
      scan_layout value (h name value List.mem_cons_self) hfloats
        (stops_layoutMembers level more stops),
      scan_members more hmore hmorefloats stops, Document.memberTokens]
    simp only [List.append_assoc, List.cons_append]

end

end Json

end ShaderFabric
