/-
# Numbers in a JSON text

What is read as a number depends on the characters of the number only: a character that no number
goes on with may follow, or nothing (`Stops`).  A number takes no more characters than there are,
and it is a whole number of sixty-four bits or a finite float.

* `withExponent_eq` -- what an exponent looks like apart from what it does;
* `unsigned_append` -- what comes after a number is not looked at;
* `length_unsigned_le` -- how many characters a number takes;
* `number_unsigned` -- what a number is read as.
-/
import ShaderFabric.Proofs.Number.Finite

namespace ShaderFabric

namespace Json

/-! ## 1. Exponents -/

/-- The sign of an exponent, how many characters it takes, and the digits after it. -/
def signOf : List Char → Bool × Nat × List Char
  | '+' :: more => (false, 1, more.takeWhile Char.isDigit)
  | '-' :: more => (true, 1, more.takeWhile Char.isDigit)
  | rest => (false, 0, rest.takeWhile Char.isDigit)

/-- The exponent that comes next, if there is one. -/
def exponentOf : List Char → Option (Bool × Nat × List Char)
  | mark :: rest => if mark = 'e' ∨ mark = 'E' then some (signOf rest) else none
  | [] => none

/-- A significand with a power of ten and an exponent. -/
def raised (negative : Bool) (significand : Nat) (power : Int) (down : Bool)
    (digits : List Char) : Option Double :=
  if digits.isEmpty then none
  else
    match exponentValue digits with
    | some exponent =>
      assemble negative significand (if down then power - exponent else power + exponent)
    | none =>
      if significand ≠ 0 ∧ !down then none else some (Double.ofWord negative 0)

/-- A significand with an exponent, and how many characters the exponent takes. -/
def withSign (negative : Bool) (significand : Nat) (power : Int) (sign : Bool × Nat × List Char) :
    Option Double × Nat :=
  (raised negative significand power sign.1 sign.2.2, 1 + sign.2.1 + sign.2.2.length)

/-- **A number after its significand**, what is written apart from what it means. -/
theorem withExponent_eq (negative : Bool) (significand : Nat) (power : Int) (cs : List Char) :
    withExponent negative significand power cs =
      match exponentOf cs with
      | some sign => withSign negative significand power sign
      | none => (assemble negative significand power, 0) := by
  have hraised : ∀ (down : Bool) (signLength : Nat) (digits : List Char),
      (if digits.isEmpty then (none, 1 + signLength + digits.length)
      else
        match exponentValue digits with
        | some exponent =>
          (assemble negative significand (if down then power - exponent else power + exponent),
            1 + signLength + digits.length)
        | none =>
          if significand ≠ 0 ∧ !down then (none, 1 + signLength + digits.length)
          else (some (Double.ofWord negative 0), 1 + signLength + digits.length)) =
        withSign negative significand power (down, signLength, digits) := by
    intro down signLength digits
    unfold withSign raised
    split
    · rfl
    · cases exponentValue digits with
      | some exponent => rfl
      | none =>
        dsimp only
        split
        · rfl
        · rfl
  cases cs with
  | nil => rfl
  | cons mark rest =>
    unfold withExponent exponentOf
    dsimp only
    split
    · dsimp only
      split
      · exact hraised false 1 _
      · exact hraised true 1 _
      · rename_i hplus hminus
        have hnone : signOf rest = (false, 0, rest.takeWhile Char.isDigit) := by
          unfold signOf
          split
          · exact absurd rfl (hplus _)
          · exact absurd rfl (hminus _)
          · rfl
        rw [hnone]
        exact hraised false 0 _
    · rfl

theorem length_takeWhile_le (cs : List Char) : (cs.takeWhile Char.isDigit).length ≤ cs.length :=
  (List.takeWhile_prefix Char.isDigit).length_le

theorem length_signOf_le (cs : List Char) :
    (signOf cs).2.1 + (signOf cs).2.2.length ≤ cs.length := by
  unfold signOf
  split
  · rename_i more
    have hmore := length_takeWhile_le more
    show 1 + (more.takeWhile Char.isDigit).length ≤ more.length + 1
    omega
  · rename_i more
    have hmore := length_takeWhile_le more
    show 1 + (more.takeWhile Char.isDigit).length ≤ more.length + 1
    omega
  · rename_i hplus hminus
    show 0 + (cs.takeWhile Char.isDigit).length ≤ cs.length
    rw [Nat.zero_add]
    exact length_takeWhile_le cs

/-- An exponent takes no more characters than there are. -/
theorem length_withExponent_le (negative : Bool) (significand : Nat) (power : Int)
    (cs : List Char) : (withExponent negative significand power cs).2 ≤ cs.length := by
  rw [withExponent_eq]
  cases cs with
  | nil => exact Nat.zero_le _
  | cons mark rest =>
    by_cases hmark : mark = 'e' ∨ mark = 'E'
    · have hrest := length_signOf_le rest
      rw [exponentOf, if_pos hmark]
      show 1 + (signOf rest).2.1 + (signOf rest).2.2.length ≤ rest.length + 1
      omega
    · rw [exponentOf, if_neg hmark]
      exact Nat.zero_le _

/-! ## 2. What comes after a number -/

/-- No number goes on with these characters. -/
def Stops (rest : List Char) : Prop :=
  ∀ c ∈ rest.head?, c.isDigit = false ∧ c ≠ '.' ∧ c ≠ 'e' ∧ c ≠ 'E' ∧ c ≠ '+' ∧ c ≠ '-'

theorem drop_append_digits (cs rest : List Char) :
    (cs ++ rest).drop (cs.takeWhile Char.isDigit).length =
      cs.drop (cs.takeWhile Char.isDigit).length ++ rest :=
  List.drop_append_of_le_length (length_takeWhile_le cs)

section Append

variable {rest : List Char} (stops : Stops rest)

include stops

theorem takeWhile_append_of_stops (cs : List Char) :
    (cs ++ rest).takeWhile Char.isDigit = cs.takeWhile Char.isDigit := by
  induction cs with
  | nil =>
    cases rest with
    | nil => rfl
    | cons c more =>
      have hc := (stops c rfl).1
      rw [List.nil_append, List.takeWhile_cons_of_neg (by rw [hc]; exact Bool.false_ne_true)]
      rfl
  | cons c more ih => rw [List.cons_append, List.takeWhile_cons, List.takeWhile_cons, ih]

theorem signOf_append (cs : List Char) : signOf (cs ++ rest) = signOf cs := by
  have hdigits := takeWhile_append_of_stops stops
  cases cs with
  | nil =>
    have hnone : rest.takeWhile Char.isDigit = [] := hdigits []
    rw [List.nil_append]
    unfold signOf
    split
    · exact absurd rfl (stops '+' rfl).2.2.2.2.1
    · exact absurd rfl (stops '-' rfl).2.2.2.2.2
    · rw [hnone]
      rfl
  | cons c more =>
    by_cases hplus : c = '+'
    · rw [hplus]
      exact congrArg (fun digits => (false, 1, digits)) (hdigits more)
    · by_cases hminus : c = '-'
      · rw [hminus]
        exact congrArg (fun digits => (true, 1, digits)) (hdigits more)
      · rw [signOf.eq_3 _ (by simpa using hplus) (by simpa using hminus),
          signOf.eq_3 _ (by simpa using hplus) (by simpa using hminus), hdigits]

theorem exponentOf_append (cs : List Char) : exponentOf (cs ++ rest) = exponentOf cs := by
  cases cs with
  | nil =>
    cases rest with
    | nil => rfl
    | cons c more =>
      obtain ⟨-, -, he, hE, -, -⟩ := stops c rfl
      exact if_neg (not_or.mpr ⟨he, hE⟩)
  | cons mark cs =>
    rw [List.cons_append, exponentOf, exponentOf, signOf_append stops]

theorem withExponent_append (negative : Bool) (significand : Nat) (power : Int)
    (cs : List Char) : withExponent negative significand power (cs ++ rest) =
      withExponent negative significand power cs := by
  rw [withExponent_eq, withExponent_eq, exponentOf_append stops]

end Append

/-! ## 3. Numbers -/

/-- A float with the number of its characters; out of range there is none. -/
def floatToken (length : Nat) (x : Option Double × Nat) : Token × Nat :=
  (match x.1 with
    | some y => .scalar (.float y)
    | none => .fault, length + x.2)

/-- A number with decimals, after its point. -/
def decimalToken (negative : Bool) (length : Nat) (digits : Nat × Nat) (more : List Char) :
    Token × Nat :=
  let decimals := more.takeWhile Char.isDigit
  let full := takeDigits digits.1 decimals
  if decimals.isEmpty then (.fault, 1)
  else
    floatToken (length + 1 + decimals.length)
      (withExponent negative full.1 ((digits.2 : Int) - (decimals.length - full.2 : Nat))
        (more.drop decimals.length))

/-- A number of whole digits. -/
def wholeToken (negative : Bool) (length : Nat) (digits : Nat × Nat) : Token × Nat :=
  if digits.2 ≠ 0 then floatToken length (assemble negative digits.1 digits.2, 0)
  else if !negative then (.scalar (.int digits.1), length)
  else if digits.1 = 0 ∨ 0x8000000000000000 < digits.1 then
    (.scalar (.float (Double.ofInt digits.1).neg), length)
  else (.scalar (.int (-digits.1)), length)

/-- What follows a decimal point, if there is one. -/
def decimalsOf : List Char → Option (List Char)
  | c :: more => if c = '.' then some more else none
  | [] => none

/-- A number from what follows its whole digits. -/
def tokenOf (negative : Bool) (length : Nat) (digits : Nat × Nat) (after : List Char) :
    Token × Nat :=
  match decimalsOf after with
  | some more => decimalToken negative length digits more
  | none =>
    match exponentOf after with
    | some _ => floatToken length (withExponent negative digits.1 digits.2 after)
    | none => wholeToken negative length digits

/-- **A number, step by step.** -/
theorem unsigned_eq (negative : Bool) (cs : List Char) :
    unsigned negative cs =
      let whole := cs.takeWhile Char.isDigit
      if whole.isEmpty ∨ (whole.length > 1 ∧ whole.head? = some '0') then (.fault, 1)
      else tokenOf negative whole.length (takeDigits 0 whole) (cs.drop whole.length) := by
  unfold unsigned
  dsimp only
  split
  · rfl
  · generalize takeDigits 0 (cs.takeWhile Char.isDigit) = digits
    generalize (cs.takeWhile Char.isDigit).length = length
    generalize cs.drop length = after
    obtain ⟨significand, extra⟩ := digits
    dsimp only
    split
    · rename_i more
      rw [ite_self]
      show _ = decimalToken negative length (significand, extra) more
      rfl
    · rfl
    · rfl
    · rename_i hdot he hE
      have hdecimals : decimalsOf after = none := by
        cases after with
        | nil => rfl
        | cons c more =>
          refine if_neg ?_
          rintro rfl
          exact hdot _ rfl
      have hexponent : exponentOf after = none := by
        cases after with
        | nil => rfl
        | cons c more =>
          refine if_neg ?_
          rintro (rfl | rfl)
          · exact he _ rfl
          · exact hE _ rfl
      unfold tokenOf
      rw [hdecimals, hexponent]
      rfl

/-- **What comes after a number is not looked at.** -/
theorem unsigned_append {rest : List Char} (stops : Stops rest) (negative : Bool)
    (cs : List Char) : unsigned negative (cs ++ rest) = unsigned negative cs := by
  have htail : ∀ (length : Nat) (digits : Nat × Nat) (after : List Char),
      tokenOf negative length digits (after ++ rest) = tokenOf negative length digits after := by
    intro length digits after
    have hdecimals : decimalsOf (after ++ rest) = (decimalsOf after).map (· ++ rest) := by
      cases after with
      | nil =>
        cases rest with
        | nil => rfl
        | cons c more => exact if_neg (stops c rfl).2.1
      | cons c more =>
        rw [List.cons_append, decimalsOf, decimalsOf]
        split
        · rfl
        · rfl
    have hdecimal : ∀ more, decimalToken negative length digits (more ++ rest) =
        decimalToken negative length digits more := by
      intro more
      unfold decimalToken
      dsimp only
      rw [takeWhile_append_of_stops stops, drop_append_digits, withExponent_append stops]
    unfold tokenOf
    rw [hdecimals, exponentOf_append stops, withExponent_append stops]
    cases decimalsOf after with
    | none => rfl
    | some more => exact hdecimal more
  rw [unsigned_eq, unsigned_eq]
  dsimp only
  rw [takeWhile_append_of_stops stops, drop_append_digits, htail]

theorem length_wholeToken (negative : Bool) (length : Nat) (digits : Nat × Nat) :
    (wholeToken negative length digits).2 = length := by
  unfold wholeToken
  split
  · rfl
  · split
    · rfl
    · split
      · rfl
      · rfl

theorem length_tokenOf_le (negative : Bool) (length : Nat) (digits : Nat × Nat)
    (after : List Char) : (tokenOf negative length digits after).1 = .fault ∨
      (tokenOf negative length digits after).2 ≤ length + after.length := by
  unfold tokenOf
  cases hdecimals : decimalsOf after with
  | none =>
    refine .inr ?_
    dsimp only
    cases exponentOf after with
    | none =>
      dsimp only
      rw [length_wholeToken]
      omega
    | some sign =>
      exact Nat.add_le_add_left
        (length_withExponent_le negative digits.1 digits.2 after) length
  | some more =>
    have hlength : after.length = more.length + 1 := by
      cases after with
      | nil => cases hdecimals
      | cons c rest =>
        rw [decimalsOf] at hdecimals
        split at hdecimals
        · cases hdecimals
          rfl
        · cases hdecimals
    dsimp only
    unfold decimalToken
    dsimp only
    split
    · exact .inl rfl
    · have hdigits := length_takeWhile_le more
      have hexponent := length_withExponent_le negative
        (takeDigits digits.1 (more.takeWhile Char.isDigit)).1
        ((digits.2 : Int) - ((more.takeWhile Char.isDigit).length -
          (takeDigits digits.1 (more.takeWhile Char.isDigit)).2 : Nat))
        (more.drop (more.takeWhile Char.isDigit).length)
      rw [List.length_drop] at hexponent
      refine .inr ?_
      show length + 1 + _ + _ ≤ _
      omega

/-- **A number takes no more characters than there are**, if it is one. -/
theorem length_unsigned_le (negative : Bool) (cs : List Char) :
    (unsigned negative cs).1 = .fault ∨ (unsigned negative cs).2 ≤ cs.length := by
  rw [unsigned_eq]
  dsimp only
  split
  · exact .inl rfl
  · have hwhole := length_takeWhile_le cs
    refine (length_tokenOf_le negative _ _ _).imp_right fun h => ?_
    rw [List.length_drop] at h
    omega

/-- A token that stands for a number, or for none. -/
def Token.IsNumber : Token → Prop
  | .scalar (.int value) => -0x8000000000000000 ≤ value ∧ value ≤ largestWord
  | .scalar (.float x) => x.isFinite = true
  | .fault => True
  | _ => False

theorem takeDigits_le : ∀ {cs : List Char} {significand : Nat}, significand ≤ largestWord →
    (takeDigits significand cs).1 ≤ largestWord
  | [], _, h => h
  | c :: rest, significand, h => by
    rw [takeDigits]
    split
    · rename_i hnext
      exact takeDigits_le hnext
    · exact h

theorem isFinite_raised {negative : Bool} {significand : Nat} {power : Int} {down : Bool}
    {digits : List Char} {x : Double} (hsignificand : significand ≤ largestWord)
    (h : raised negative significand power down digits = some x) : x.isFinite = true := by
  unfold raised at h
  split at h
  · cases h
  · split at h
    · exact isFinite_assemble hsignificand h
    · split at h
      · cases h
      · cases h
        cases negative <;> decide

theorem isFinite_withExponent {negative : Bool} {significand : Nat} {power : Int} {cs : List Char}
    {x : Double} (hsignificand : significand ≤ largestWord)
    (h : (withExponent negative significand power cs).1 = some x) : x.isFinite = true := by
  rw [withExponent_eq] at h
  cases hsign : exponentOf cs with
  | none =>
    rw [hsign] at h
    exact isFinite_assemble hsignificand h
  | some sign =>
    rw [hsign] at h
    exact isFinite_raised hsignificand h

theorem isNumber_floatToken {length : Nat} {x : Option Double × Nat}
    (h : ∀ y, x.1 = some y → y.isFinite = true) : (floatToken length x).1.IsNumber := by
  obtain ⟨value, taken⟩ := x
  cases value with
  | none => trivial
  | some y => exact h y rfl

theorem isNumber_wholeToken {negative : Bool} {length : Nat} {digits : Nat × Nat}
    (h : digits.1 ≤ largestWord) : (wholeToken negative length digits).1.IsNumber := by
  have hfinite : (Double.ofInt digits.1).isFinite = true :=
    Double.isFinite_ofInt (show digits.1 < 2 ^ 64 from Nat.lt_of_le_of_lt h (by decide))
  unfold wholeToken
  split
  · exact isNumber_floatToken fun y hy => isFinite_assemble h hy
  · split
    · exact ⟨by omega, by omega⟩
    · split
      · show (Double.ofInt digits.1).neg.isFinite = true
        rw [Double.isFinite_neg, hfinite]
      · exact ⟨by omega, by omega⟩

/-- **What is read as a number** is a whole number of sixty-four bits or a finite float. -/
theorem isNumber_unsigned (negative : Bool) (cs : List Char) :
    (unsigned negative cs).1.IsNumber := by
  have hwhole : (takeDigits 0 (cs.takeWhile Char.isDigit)).1 ≤ largestWord :=
    takeDigits_le (Nat.zero_le _)
  rw [unsigned_eq]
  dsimp only
  split
  · trivial
  · unfold tokenOf
    cases decimalsOf _ with
    | some more =>
      dsimp only
      unfold decimalToken
      dsimp only
      split
      · trivial
      · exact isNumber_floatToken fun y hy => isFinite_withExponent (takeDigits_le hwhole) hy
    | none =>
      dsimp only
      cases exponentOf _ with
      | some sign => exact isNumber_floatToken fun y hy => isFinite_withExponent hwhole hy
      | none => exact isNumber_wholeToken hwhole

end Json

end ShaderFabric
