/-
# Numbers that are read are finite

A JSON number is put together from a significand of at most sixty-four bits and a power of ten.  It
is refused when it grows too large, and it never grows when it is divided.  So whatever is read is a
finite number, however many digits and whatever exponent it is written with.

Sizes are measured by the exponent bits of a number (`Double.scale`): a quotient rounded to a number
of this format has at most four more of them than the exact quotient calls for, which is far from
enough to reach infinity from sixty-four bits.

* `round_le` -- how large a rounded quotient can be;
* `scale_div`, `scale_divideDown` -- division;
* `isFinite_assemble` -- what is put together is finite.
-/
import Mathlib.Algebra.Group.Nat.Defs
import ShaderFabric.Json.Token

namespace ShaderFabric

/-! ## 1. Rounding -/

theorem roundHalfEven_le (num den : Nat) : roundHalfEven num den ≤ num / den + 1 := by
  unfold roundHalfEven
  dsimp only
  split
  · omega
  · split
    · omega
    · omega

namespace Format

/-- A quotient in units of `2 ^ q` has at most fifty-four bits, unless `q` is below all bits of it
by more than that. -/
theorem scaled_lt {num den : Nat} {q : Int} (hden : den ≠ 0)
    (hq : (num.log2 : Int) - den.log2 - 53 ≤ q) :
    (scaleBy 2 (-q) num den).1 < 2 ^ 54 * (scaleBy 2 (-q) num den).2 := by
  have hnum : num < 2 ^ (num.log2 + 1) := Nat.lt_log2_self
  have hlow : 2 ^ den.log2 ≤ den := Nat.log2_self_le hden
  unfold scaleBy
  split
  · have hexponent : num.log2 + 1 + (-q).toNat ≤ 54 + den.log2 := by omega
    calc num * 2 ^ (-q).toNat
        < 2 ^ (num.log2 + 1) * 2 ^ (-q).toNat :=
          Nat.mul_lt_mul_of_pos_right hnum (Nat.two_pow_pos _)
      _ = 2 ^ (num.log2 + 1 + (-q).toNat) := (Nat.pow_add ..).symm
      _ ≤ 2 ^ (54 + den.log2) := Nat.pow_le_pow_right (by decide) hexponent
      _ = 2 ^ 54 * 2 ^ den.log2 := Nat.pow_add ..
      _ ≤ 2 ^ 54 * den := Nat.mul_le_mul_left _ hlow
  · have hexponent : num.log2 + 1 ≤ 54 + den.log2 + (- -q).toNat := by omega
    calc num < 2 ^ (num.log2 + 1) := hnum
      _ ≤ 2 ^ (54 + den.log2 + (- -q).toNat) := Nat.pow_le_pow_right (by decide) hexponent
      _ = 2 ^ 54 * (2 ^ den.log2 * 2 ^ (- -q).toNat) := by
        rw [Nat.pow_add, Nat.pow_add, Nat.mul_assoc]
      _ ≤ 2 ^ 54 * (den * 2 ^ (- -q).toNat) :=
        Nat.mul_le_mul_left _ (Nat.mul_le_mul_right _ hlow)

/-- Where a quotient is rounded. -/
theorem unitFor_bounds (num den : Nat) :
    (num.log2 : Int) - den.log2 - 53 ≤ double.unitFor num den ∧
      double.unitFor num den ≤ max (-1074) ((num.log2 : Int) - den.log2 - 53) + 1 := by
  have hleast : double.least = -1074 := by decide
  have hunit : (num.log2 : Int) - den.log2 - 1 - double.fraction =
      (num.log2 : Int) - den.log2 - 53 := by
    show (num.log2 : Int) - den.log2 - 1 - 52 = _
    omega
  unfold unitFor
  rw [hleast, hunit]
  dsimp only
  split
  · omega
  · omega

/-- **How large a rounded quotient is** that is below a power of two. -/
theorem round_le {num den k : Nat} (hden : den ≠ 0) (h : num < 2 ^ k * den) :
    double.round num den ≤ (k + 1026) * 2 ^ 52 := by
  unfold round
  split
  · exact Nat.zero_le _
  · rename_i hnum
    obtain ⟨hlow, hhigh⟩ := unitFor_bounds num den
    have hlog : num.log2 ≤ k + den.log2 := by
      have hbelow : num < 2 ^ (k + den.log2 + 1) := by
        calc num < 2 ^ k * den := h
          _ ≤ 2 ^ k * 2 ^ (den.log2 + 1) := Nat.mul_le_mul_left _ (Nat.le_of_lt Nat.lt_log2_self)
          _ = 2 ^ (k + den.log2 + 1) := by rw [← Nat.pow_add, Nat.add_assoc]
      exact Nat.lt_succ_iff.mp ((Nat.log2_lt hnum).mpr hbelow)
    have hdigits : roundHalfEven (scaleBy 2 (-double.unitFor num den) num den).1
        (scaleBy 2 (-double.unitFor num den) num den).2 ≤ 4 * 2 ^ 52 := by
      have hless := Nat.div_lt_of_lt_mul
        (Nat.mul_comm (2 ^ 54) _ ▸ scaled_lt hden hlow)
      have hround := roundHalfEven_le (scaleBy 2 (-double.unitFor num den) num den).1
        (scaleBy 2 (-double.unitFor num den) num den).2
      have hpower : 2 ^ 54 = 4 * 2 ^ 52 := rfl
      omega
    have hunits : (double.unitFor num den - double.least).toNat ≤ k + 1022 := by
      have hleast : double.least = -1074 := by decide
      omega
    have hall := Nat.add_le_add (Nat.mul_le_mul_right (2 ^ 52) hunits) hdigits
    rw [← Nat.add_mul] at hall
    exact Nat.le_trans (Nat.min_le_right _ _) hall

/-- Nothing is rounded beyond infinity. -/
theorem round_le_infinity (num den : Nat) : double.round num den ≤ double.infinity := by
  unfold round
  split
  · exact Nat.zero_le _
  · exact Nat.min_le_left _ _

/-- The pair of a word: a significand of at most fifty-three bits, and of just that many where the
word has exponent bits. -/
theorem decode_bounds (word : Nat) :
    (double.decode word).1 < 2 ^ 53 ∧
      (double.decode word).2 = -1074 + (word / 2 ^ 52 - 1 : Nat) ∧
      (word / 2 ^ 52 ≠ 0 → 2 ^ 52 ≤ (double.decode word).1) := by
  have hfraction : Nat.pow 2 double.fraction = 2 ^ 52 := rfl
  have hleast : double.least = -1074 := by decide
  have hbelow : word % 2 ^ 52 < 2 ^ 52 := Nat.mod_lt _ (Nat.two_pow_pos 52)
  unfold decode
  dsimp only
  rw [hfraction, hleast]
  split
  · rename_i hzero
    rw [hzero]
    exact ⟨by omega, rfl, fun h => absurd rfl h⟩
  · exact ⟨by omega, rfl, fun _ => Nat.le_add_right ..⟩

end Format

/-! ## 2. Sizes -/

namespace Double

/-- The exponent bits of a number. -/
def scale (x : Double) : Nat := x.word / 2 ^ 52

theorem word_ofWord {negative : Bool} {word : Nat} (h : word < 2 ^ 63) :
    (ofWord negative word).word = word := by
  have hsign : Format.double.signBit = 2 ^ 63 := rfl
  unfold ofWord Double.word
  rw [hsign]
  cases negative with
  | true =>
    rw [if_pos rfl, UInt64.toNat_ofNat']
    omega
  | false =>
    rw [if_neg Bool.false_ne_true, UInt64.toNat_ofNat']
    omega

theorem word_ofWord_round (negative : Bool) (num den : Nat) :
    (ofWord negative (Format.double.round num den)).word = Format.double.round num den := by
  have hinfinity : Format.double.infinity < 2 ^ 63 := by decide
  exact word_ofWord (Nat.lt_of_le_of_lt (Format.round_le_infinity num den) hinfinity)

theorem isFinite_of_scale {x : Double} (h : x.scale < 2047) : x.isFinite = true := by
  have hinfinity : Format.double.infinity = 2047 * 2 ^ 52 := rfl
  refine decide_eq_true ?_
  rw [hinfinity]
  exact (Nat.div_lt_iff_lt_mul (Nat.two_pow_pos 52)).mp h

@[simp] theorem isFinite_neg (x : Double) : x.neg.isFinite = x.isFinite := by
  have hword : x.word < 2 ^ 63 := Nat.mod_lt _ (Nat.two_pow_pos 63)
  unfold isFinite neg
  rw [word_ofWord hword]

/-- The scale of a rounded quotient below a power of two. -/
theorem scale_round {negative : Bool} {num den k : Nat} (hden : den ≠ 0) (h : num < 2 ^ k * den) :
    (ofWord negative (Format.double.round num den)).scale ≤ k + 1026 := by
  rw [scale, word_ofWord_round]
  exact Nat.div_le_of_le_mul (Nat.mul_comm _ (2 ^ 52) ▸ Format.round_le hden h)

theorem scale_ofInt {i : Int} (h : i.natAbs < 2 ^ 64) : (ofInt i).scale ≤ 1090 :=
  scale_round Nat.one_ne_zero (by rwa [Nat.mul_one])

/-- A whole number of sixty-four bits has a nearest one. -/
theorem isFinite_ofInt {i : Int} (h : i.natAbs < 2 ^ 64) : (ofInt i).isFinite = true :=
  isFinite_of_scale (Nat.lt_of_le_of_lt (scale_ofInt h) (by decide))

/-- **A quotient** is as much smaller than the dividend as the divisor is large, up to rounding. -/
theorem scale_div {x y : Double} (hy : y.scale ≠ 0) :
    (x.div y).scale ≤ x.scale + 2 - y.scale + 1026 := by
  obtain ⟨hm, hq, -⟩ := Format.decode_bounds x.word
  obtain ⟨-, hr, hn⟩ := Format.decode_bounds y.word
  have hbits := hn hy
  unfold div
  generalize Format.double.decode x.word = dividend at hm hq
  generalize Format.double.decode y.word = divisor at hr hbits
  obtain ⟨m, q⟩ := dividend
  obtain ⟨n, r⟩ := divisor
  dsimp only at hm hq hr hbits ⊢
  have hless : m < 2 * n := by omega
  unfold scaleBy
  split
  · rename_i hpower
    refine scale_round (by omega) ?_
    have hexponent : (q - r).toNat + 1 ≤ x.scale + 2 - y.scale := by
      unfold scale at hy ⊢
      omega
    calc m * 2 ^ (q - r).toNat
        < 2 * n * 2 ^ (q - r).toNat := Nat.mul_lt_mul_of_pos_right hless (Nat.two_pow_pos _)
      _ = 2 ^ ((q - r).toNat + 1) * n := by rw [Nat.pow_succ]; ac_rfl
      _ ≤ 2 ^ (x.scale + 2 - y.scale) * n :=
        Nat.mul_le_mul_right _ (Nat.pow_le_pow_right (by decide) hexponent)
  · rename_i hpower
    have hexponent : 1 ≤ (-(q - r)).toNat := by omega
    have hden : 2 * n ≤ n * 2 ^ (-(q - r)).toNat := by
      rw [Nat.mul_comm]
      exact Nat.mul_le_mul_left n (Nat.pow_le_pow_right (by decide) hexponent : 2 ^ 1 ≤ _)
    have hpos : 0 < 2 * n := by omega
    refine scale_round (Nat.ne_of_gt (Nat.lt_of_lt_of_le hpos hden)) ?_
    calc m < 2 * n := hless
      _ ≤ n * 2 ^ (-(q - r)).toNat := hden
      _ ≤ 2 ^ (x.scale + 2 - y.scale) * (n * 2 ^ (-(q - r)).toNat) :=
        Nat.le_mul_of_pos_left _ (Nat.two_pow_pos _)

/-- A product that is not infinite is finite. -/
theorem isFinite_mul {x y : Double} (h : ¬ (x.mul y).isInfinite = true) :
    (x.mul y).isFinite = true := by
  have hword : (x.mul y).word ≤ Format.double.infinity := by
    unfold mul Format.roundBinary
    dsimp only
    rw [word_ofWord_round]
    exact Format.round_le_infinity _ _
  exact decide_eq_true (Nat.lt_of_le_of_ne hword fun heq => h (decide_eq_true heq))

/-- The powers of ten that numbers are multiplied with and divided by. -/
theorem scale_tens : ∀ power : Nat, power < 309 → 1023 ≤ (ofDecimal false 1 power).scale := by
  decide +kernel

end Double

/-! ## 3. Numbers of a text -/

namespace Json

open Double

theorem scale_divideDown (x : Double) (power : Nat) (h : x.scale ≤ 1090) :
    (divideDown x power).scale ≤ 1095 := by
  fun_induction divideDown x power with
  | case1 x power hzero => omega
  | case2 x power hword hpower =>
    have hten := scale_tens power (by omega)
    have hquotient := scale_div (x := x) (by omega : (ofDecimal false 1 power).scale ≠ 0)
    omega
  | case3 x power hword hpower ih =>
    have hten : 2046 ≤ (ofDecimal false 1 308).scale := by decide +kernel
    have hquotient := scale_div (x := x) (by omega : (ofDecimal false 1 308).scale ≠ 0)
    exact ih (by omega)

/-- **What is put together is finite.** -/
theorem isFinite_assemble {negative : Bool} {significand : Nat} {power : Int} {x : Double}
    (hsignificand : significand ≤ largestWord)
    (h : assemble negative significand power = some x) : x.isFinite = true := by
  have hscale : (ofInt significand).scale ≤ 1090 :=
    scale_ofInt (show significand < 2 ^ 64 from Nat.lt_of_le_of_lt hsignificand (by decide))
  unfold assemble at h
  obtain ⟨y, hy, hx⟩ := Option.map_eq_some_iff.mp h
  have hfinite : y.isFinite = true := by
    split at hy
    · cases hy
      have hdown := scale_divideDown _ power.natAbs hscale
      exact isFinite_of_scale (by omega)
    · split at hy
      · dsimp only at hy
        split at hy
        · cases hy
        · rename_i hproduct
          cases hy
          exact isFinite_mul hproduct
      · split at hy
        · cases hy
          exact isFinite_of_scale (by omega)
        · cases hy
  subst hx
  split
  · rw [isFinite_neg, hfinite]
  · exact hfinite

end Json

end ShaderFabric
