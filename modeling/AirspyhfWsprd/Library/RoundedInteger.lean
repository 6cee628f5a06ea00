import AirspyhfWsprd.Library.FloatValue
import Mathlib.Algebra.Order.Ring.Nat
import Mathlib.Data.Nat.Log
import Mathlib.Tactic.Linarith

/-!
Natural numbers rounded to a significand of so many bits, ties to even: what a conversion
to floating point and a floating-point sum of integers do below overflow.
-/

namespace AirspyhfWsprd.Library

/-- The distance between two neighbours: the power of two that leaves `precision` bits of a
number of this size, or one. -/
def significandSpacing (precision value : Nat) : Nat := 2 ^ (Nat.log2 value + 1 - precision)

/-- The nearest number with a significand of `precision` bits. -/
def roundSignificand (precision value : Nat) : Nat :=
  roundHalfEven value (significandSpacing precision value) * significandSpacing precision value

/-- The sum needs no more than `precision` bits, and one more bit less where the first number
lies half-way between two that have so many. -/
def SumExact (precision first second : Nat) : Prop :=
  (first + second) % significandSpacing precision (first + second) = 0 ∧
    (2 * (first % significandSpacing precision first) = significandSpacing precision first →
      (first + second) % (2 * significandSpacing precision first) = 0)

instance (precision first second : Nat) : Decidable (SumExact precision first second) :=
  inferInstanceAs (Decidable (_ ∧ (_ → _)))

/-- Half a divisor away at most, and a quotient half-way between two is even. -/
structure NearestQuotient (num den quotient : Nat) : Prop where
  above : 2 * (quotient * den) ≤ 2 * num + den
  below : 2 * num ≤ 2 * (quotient * den) + den
  even : 2 * num = 2 * (quotient * den) + den ∨ 2 * num + den = 2 * (quotient * den) →
    quotient % 2 = 0

section Quotients

variable {num den quotient : Nat}

/-- Rounding with ties to even gives a nearest quotient, and in a tie the even one. -/
theorem roundHalfEven_nearest (hden : 0 < den) :
    NearestQuotient num den (roundHalfEven num den) := by
  have hdivision := Nat.div_add_mod' num den
  have hrest := Nat.mod_lt num hden
  have hnext : (num / den + 1) * den = num / den * den + den := Nat.succ_mul _ _
  unfold roundHalfEven
  dsimp only
  split
  · constructor <;> omega
  · split
    · constructor <;> omega
    · split
      · constructor <;> omega
      · constructor <;> omega

/-- Two nearest quotients, each even in a tie, cannot differ, so none is less than the other. -/
theorem NearestQuotient.not_lt (hden : 0 < den) {other : Nat} (h : NearestQuotient num den quotient)
    (hother : NearestQuotient num den other) : ¬ quotient < other := by
  intro hlt
  obtain ⟨gap, rfl⟩ := Nat.exists_eq_add_of_lt hlt
  have hbelow := h.below
  have habove := hother.above
  have hproduct : (quotient + gap + 1) * den = quotient * den + gap * den + den := by
    rw [Nat.succ_mul, Nat.add_mul]
  have hgap : gap = 0 := by
    by_contra hne
    have hmore : den ≤ gap * den := Nat.le_mul_of_pos_left den (Nat.pos_of_ne_zero hne)
    omega
  -- Both are at half a divisor, so both would be even.
  subst hgap
  have heven := h.even (by omega)
  have heven' := hother.even (by omega)
  omega

theorem roundHalfEven_eq_iff (hden : 0 < den) :
    roundHalfEven num den = quotient ↔ NearestQuotient num den quotient := by
  have hnearest : NearestQuotient num den (roundHalfEven num den) := roundHalfEven_nearest hden
  constructor
  · rintro rfl
    exact hnearest
  · intro h
    exact Nat.le_antisymm (Nat.le_of_not_lt (h.not_lt hden hnearest))
      (Nat.le_of_not_lt (hnearest.not_lt hden h))

/-- Both sides of a quotient may be multiplied by the same factor without a change of its
nearest integer. -/
theorem NearestQuotient.mul_left {factor : Nat} (hfactor : 0 < factor)
    (h : NearestQuotient num den quotient) :
    NearestQuotient (factor * num) (factor * den) quotient := by
  have hproduct : quotient * (factor * den) = factor * (quotient * den) := Nat.mul_left_comm ..
  constructor
  · have habove := Nat.mul_le_mul_left factor h.above
    rw [hproduct]
    linarith
  · have hbelow := Nat.mul_le_mul_left factor h.below
    rw [hproduct]
    linarith
  · rw [hproduct]
    intro htie
    apply h.even
    apply htie.imp
    · intro hhalf
      apply Nat.eq_of_mul_eq_mul_left hfactor
      linarith
    · intro hhalf
      apply Nat.eq_of_mul_eq_mul_left hfactor
      linarith

theorem roundHalfEven_one (num : Nat) : roundHalfEven num 1 = num := by
  rw [roundHalfEven_eq_iff Nat.one_pos]
  constructor <;> omega

end Quotients

section Significands

variable {precision value : Nat}

theorem significandSpacing_pos (precision value : Nat) : 0 < significandSpacing precision value :=
  Nat.two_pow_pos _

/-- Below the precision nothing is rounded. -/
theorem significandSpacing_short (h : Nat.log2 value + 1 ≤ precision) :
    significandSpacing precision value = 1 := by
  rw [significandSpacing, Nat.sub_eq_zero_of_le h, Nat.pow_zero]

theorem roundSignificand_short (h : Nat.log2 value + 1 ≤ precision) :
    roundSignificand precision value = value := by
  rw [roundSignificand, significandSpacing_short h, roundHalfEven_one, Nat.mul_one]

theorem roundSignificand_eq_iff {rounded : Nat} :
    roundSignificand precision value = rounded ↔
      ∃ quotient, rounded = quotient * significandSpacing precision value ∧
        NearestQuotient value (significandSpacing precision value) quotient := by
  have hpos := significandSpacing_pos precision value
  constructor
  · rintro rfl
    exact ⟨_, rfl, roundHalfEven_nearest hpos⟩
  · rintro ⟨quotient, rfl, hnearest⟩
    rw [roundSignificand, (roundHalfEven_eq_iff hpos).mpr hnearest]

theorem significandSpacing_dvd (hprecision : 0 < precision) (value : Nat) :
    significandSpacing precision value ∣ 2 ^ Nat.log2 value := by
  apply Nat.pow_dvd_pow
  omega

theorem significandSpacing_le (precision : Nat) {larger : Nat}
    (h : Nat.log2 value ≤ Nat.log2 larger) :
    significandSpacing precision value ≤ significandSpacing precision larger :=
  Nat.pow_le_pow_right Nat.two_pos (Nat.sub_le_sub_right (Nat.succ_le_succ h) precision)

/-- The spacing of a larger number is the same, or at least twice as wide. -/
theorem significandSpacing_wider (precision : Nat) {larger : Nat}
    (h : Nat.log2 value ≤ Nat.log2 larger) :
    significandSpacing precision value = significandSpacing precision larger ∨
      2 * significandSpacing precision value ∣ significandSpacing precision larger := by
  rw [significandSpacing, significandSpacing, ← Nat.pow_succ']
  rcases Nat.eq_or_lt_of_le (Nat.sub_le_sub_right (Nat.succ_le_succ h) precision) with heq | hlt
  · exact Or.inl (congrArg (2 ^ ·) heq)
  · exact Or.inr (Nat.pow_dvd_pow 2 hlt)

/-- Rounding does not cross a power of two downwards. -/
theorem pow_le_roundSignificand (hprecision : 0 < precision) {exponent : Nat}
    (h : 2 ^ exponent ≤ value) : 2 ^ exponent ≤ roundSignificand precision value := by
  have hvalue : value ≠ 0 := Nat.pos_iff_ne_zero.mp (Nat.lt_of_lt_of_le (Nat.two_pow_pos _) h)
  have hexponent : exponent ≤ Nat.log2 value := (Nat.le_log2 hvalue).mpr h
  have hpos := significandSpacing_pos precision value
  obtain ⟨steps, hsteps⟩ := significandSpacing_dvd hprecision value
  obtain ⟨quotient, hquotient, hnearest⟩ := roundSignificand_eq_iff.mp
    (Eq.refl (roundSignificand precision value))
  rw [hquotient]
  refine (Nat.pow_le_pow_right Nat.two_pos hexponent).trans ?_
  have hfloor : 2 ^ Nat.log2 value ≤ value := Nat.log2_self_le hvalue
  rw [hsteps, Nat.mul_comm] at hfloor ⊢
  apply Nat.mul_le_mul_right
  by_contra hless
  rw [not_le] at hless
  obtain ⟨gap, rfl⟩ := Nat.exists_eq_add_of_lt hless
  have hproduct : (quotient + gap + 1) * significandSpacing precision value =
      quotient * significandSpacing precision value + gap * significandSpacing precision value +
        significandSpacing precision value := by
    rw [Nat.succ_mul, Nat.add_mul]
  have hbelow := hnearest.below
  omega

theorem roundSignificand_near {rounded : Nat} (h : roundSignificand precision value = rounded) :
    2 * rounded ≤ 2 * value + significandSpacing precision value ∧
      2 * value ≤ 2 * rounded + significandSpacing precision value := by
  obtain ⟨quotient, rfl, hnearest⟩ := roundSignificand_eq_iff.mp h
  exact ⟨hnearest.above, hnearest.below⟩

/-- A number half-way between two neighbours is half a spacing away from the one it is
rounded to. -/
theorem roundSignificand_tie_iff {rounded : Nat}
    (h : roundSignificand precision value = rounded) :
    2 * (value % significandSpacing precision value) = significandSpacing precision value ↔
      (2 * value = 2 * rounded + significandSpacing precision value ∨
        2 * value + significandSpacing precision value = 2 * rounded) := by
  have hpos := significandSpacing_pos precision value
  obtain ⟨quotient, rfl, hnearest⟩ := roundSignificand_eq_iff.mp h
  have habove := hnearest.above
  have hbelow := hnearest.below
  have hdivision := Nat.div_add_mod' value (significandSpacing precision value)
  have hrest := Nat.mod_lt value hpos
  generalize significandSpacing precision value = spacing at *
  -- The number lies between the floor and the next multiple, and so does the result.
  have hfloor : value / spacing ≤ quotient := by
    apply Nat.le_of_lt_succ
    rw [Nat.div_lt_iff_lt_mul hpos, Nat.succ_mul]
    omega
  obtain ⟨gap, rfl⟩ := Nat.exists_eq_add_of_le hfloor
  rw [Nat.add_mul] at habove hbelow ⊢
  have hgap : gap = 0 ∨ gap = 1 := by
    by_contra hmore
    have htwice : 2 * spacing ≤ gap * spacing := Nat.mul_le_mul_right spacing (by omega)
    omega
  rcases hgap with rfl | rfl
  · omega
  · omega

end Significands

section Sums

variable {precision first second : Nat}

/-- Where the sum stays between the same powers of two. -/
theorem sum_rounded_same {rounded : Nat} (hlog : Nat.log2 first ≤ Nat.log2 (first + second))
    (hrounded : roundSignificand precision first = rounded)
    (hsum : significandSpacing precision (rounded + second) =
      significandSpacing precision (first + second)) :
    roundSignificand precision (rounded + second) = first + second ↔
      SumExact precision first second := by
  have hspacing := significandSpacing_pos precision (first + second)
  have hnarrow := significandSpacing_le precision hlog
  have hwider := significandSpacing_wider precision hlog
  have htie := roundSignificand_tie_iff hrounded
  obtain ⟨habove, hbelow⟩ := roundSignificand_near hrounded
  rw [roundSignificand_eq_iff, hsum, SumExact]
  generalize significandSpacing precision (first + second) = spacing at *
  generalize significandSpacing precision first = narrow at *
  constructor
  · rintro ⟨quotient, hquotient, hnearest⟩
    have hdvd : spacing ∣ first + second := ⟨quotient, hquotient.trans (Nat.mul_comm _ _)⟩
    refine ⟨Nat.mod_eq_zero_of_dvd hdvd, fun hhalf => ?_⟩
    rcases hwider with rfl | htwice
    · -- The rounded sum is half-way too, so its quotient is even.
      have heven : quotient % 2 = 0 := by
        apply hnearest.even
        rw [← hquotient]
        have hhalf := htie.mp hhalf
        omega
      obtain ⟨half, rfl⟩ := Nat.dvd_of_mod_eq_zero heven
      apply Nat.mod_eq_zero_of_dvd
      exact ⟨half, hquotient.trans (Nat.mul_right_comm 2 half narrow)⟩
    · exact Nat.mod_eq_zero_of_dvd (htwice.trans hdvd)
  · rintro ⟨hmultiple, hhalf⟩
    obtain ⟨quotient, hquotient⟩ := Nat.dvd_of_mod_eq_zero hmultiple
    rw [Nat.mul_comm] at hquotient
    refine ⟨quotient, hquotient, ?_, ?_, ?_⟩
    · omega
    · omega
    · rw [← hquotient]
      intro hmid
      have hsame : narrow = spacing := by omega
      subst hsame
      obtain ⟨half, hdouble⟩ := Nat.dvd_of_mod_eq_zero (hhalf (htie.mpr (by omega)))
      have hproduct : quotient * narrow = 2 * half * narrow := by
        rw [← hquotient, hdouble, Nat.mul_right_comm]
      rw [Nat.eq_of_mul_eq_mul_right hspacing hproduct, Nat.mul_mod_right]

/-- A multiple of the spacing cannot be rounded up to the next power of two. -/
theorem sum_rounded_above {rounded spacing power : Nat} (hdvd : spacing ∣ power)
    (hbelow : first + second < power) (habove : power ≤ rounded + second)
    (hnear : 2 * rounded ≤ 2 * first + spacing) : ¬ spacing ∣ first + second := by
  intro hmultiple
  have hgap : spacing ∣ power - (first + second) := Nat.dvd_sub hdvd hmultiple
  have hle := Nat.le_of_dvd (Nat.sub_pos_of_lt hbelow) hgap
  omega

/-- Where the rounding falls below the power of two, the sum is rounded to this power. -/
theorem sum_rounded_below {rounded power : Nat}
    (hrounded : roundSignificand precision first = rounded)
    (hnarrow : 2 * significandSpacing precision first ≤
      2 * significandSpacing precision (rounded + second))
    (hdvd : 2 * significandSpacing precision (rounded + second) ∣ power)
    (hbelow : rounded + second < power) (habove : power ≤ first + second) :
    roundSignificand precision (rounded + second) = power := by
  obtain ⟨-, hnear⟩ := roundSignificand_near hrounded
  obtain ⟨half, hpower⟩ := hdvd
  have hquotient : 2 * half * significandSpacing precision (rounded + second) = power := by
    rw [hpower, Nat.mul_right_comm]
  refine roundSignificand_eq_iff.mpr ⟨2 * half, hquotient.symm, ?_, ?_, ?_⟩
  · omega
  · omega
  · exact fun _ => Nat.mul_mod_right 2 half

/-- The case in which rounding the first number takes the sum below a power of two that it had
reached: the rounded sum is right exactly when the sum needs no rounding. -/
theorem sum_rounded_low (hprecision : 0 < precision) {rounded exponent : Nat}
    (hrounded : roundSignificand precision first = rounded)
    (hexponent : Nat.log2 (first + second) = exponent) (hlow : rounded + second < 2 ^ exponent)
    (hfloor : 2 ^ exponent ≤ first + second) :
    roundSignificand precision (rounded + second) = first + second ↔
      SumExact precision first second := by
  obtain ⟨habove, hbelow⟩ := roundSignificand_near hrounded
  have hlong : precision ≤ Nat.log2 first := by
    by_contra hshort
    rw [roundSignificand_short (by omega)] at hrounded
    omega
  have hfirst : first ≠ 0 := by
    rintro rfl
    rw [Nat.log2_zero] at hlong
    omega
  have hless : Nat.log2 first < exponent := by
    rw [Nat.log2_lt hfirst]
    by_contra hnot
    have hpower := pow_le_roundSignificand hprecision (Nat.le_of_not_lt hnot)
    omega
  obtain ⟨lower, rfl⟩ : ∃ lower, exponent = lower + 1 := ⟨exponent - 1, by omega⟩
  have hpower : 2 ^ (lower + 1) = 2 * 2 ^ lower := Nat.pow_succ'
  have hnarrow : significandSpacing precision first ≤ 2 ^ (lower + 1 - precision) :=
    Nat.pow_le_pow_right Nat.two_pos (by omega)
  have hsmall : 2 ^ (lower + 1 - precision) ≤ 2 ^ lower :=
    Nat.pow_le_pow_right Nat.two_pos (by omega)
  have hlower : Nat.log2 (rounded + second) = lower :=
    (Nat.log2_eq_iff (by omega)).mpr ⟨by omega, hlow⟩
  have hspacing :
      significandSpacing precision (rounded + second) = 2 ^ (lower + 1 - precision) := by
    rw [significandSpacing, hlower]
  have hdouble : significandSpacing precision (first + second) =
      2 * 2 ^ (lower + 1 - precision) := by
    rw [significandSpacing, hexponent, ← Nat.pow_succ']
    congr 1
    omega
  have hdvd : 2 * 2 ^ (lower + 1 - precision) ∣ 2 ^ (lower + 1) := by
    rw [← Nat.pow_succ']
    exact Nat.pow_dvd_pow 2 (by omega)
  have hwider : 2 * significandSpacing precision first ∣ 2 * 2 ^ (lower + 1 - precision) :=
    Nat.mul_dvd_mul_left 2 (Nat.pow_dvd_pow 2 (by omega))
  rw [sum_rounded_below hrounded (by omega) (hspacing ▸ hdvd) hlow hfloor, SumExact, hdouble]
  constructor
  · rintro hsum
    rw [← hsum]
    exact ⟨Nat.mod_eq_zero_of_dvd hdvd,
      fun _ => Nat.mod_eq_zero_of_dvd (hwider.trans hdvd)⟩
  · rintro ⟨hmultiple, -⟩
    -- The sum is less than a spacing above the power of two.
    have hgap := Nat.dvd_sub (Nat.dvd_of_mod_eq_zero hmultiple) hdvd
    have hnone : first + second - 2 ^ (lower + 1) = 0 := by
      by_contra hne
      have hle := Nat.le_of_dvd (Nat.pos_of_ne_zero hne) hgap
      omega
    omega

/-- The rounded sum of a rounded number and a second one is the exact sum of the two. -/
theorem sum_rounded_iff (hprecision : 0 < precision) (hsecond : 0 < second) :
    roundSignificand precision (roundSignificand precision first + second) = first + second ↔
      SumExact precision first second := by
  have hsum : first + second ≠ 0 := by omega
  have hlog : Nat.log2 first ≤ Nat.log2 (first + second) := by
    rw [Nat.log2_eq_log_two, Nat.log2_eq_log_two]
    exact Nat.log_mono_right (Nat.le_add_right _ _)
  have hdvd := significandSpacing_dvd hprecision (first + second)
  have hnarrow := significandSpacing_le precision hlog
  obtain ⟨rounded, hrounded⟩ : ∃ rounded, roundSignificand precision first = rounded := ⟨_, rfl⟩
  obtain ⟨habove, hbelow⟩ := roundSignificand_near hrounded
  have hfloor : 2 ^ Nat.log2 (first + second) ≤ first + second := Nat.log2_self_le hsum
  have hceil : first + second < 2 ^ (Nat.log2 (first + second) + 1) := Nat.lt_log2_self
  rw [hrounded]
  rcases Nat.lt_or_ge (rounded + second) (2 ^ Nat.log2 (first + second)) with hlow | hinside
  · exact sum_rounded_low hprecision hrounded rfl hlow hfloor
  rcases Nat.lt_or_ge (rounded + second) (2 ^ (Nat.log2 (first + second) + 1)) with hin | hhigh
  · have hsame : Nat.log2 (rounded + second) = Nat.log2 (first + second) :=
      (Nat.log2_eq_iff (by omega)).mpr ⟨hinside, hin⟩
    apply sum_rounded_same hlog hrounded
    rw [significandSpacing, significandSpacing, hsame]
  · have hmore := pow_le_roundSignificand hprecision hhigh
    have hnone := sum_rounded_above (hdvd.trans (Nat.pow_dvd_pow 2 (Nat.le_succ _))) hceil hhigh
      (by omega)
    constructor
    · intro heq
      omega
    · rintro ⟨hmultiple, -⟩
      exact absurd (Nat.dvd_of_mod_eq_zero hmultiple) hnone

end Sums

/-- The value is this natural number. -/
inductive FloatValue.IsNat : FloatValue → Nat → Prop where
  | of {mantissa : Nat} {exponent : Int} {number : Nat}
      (h : mantissa * 2 ^ exponent.toNat = number * 2 ^ (-exponent).toNat) :
      FloatValue.IsNat (.finite false mantissa exponent) number

/-- Natural numbers of this size are not below the format's exponents and do not overflow. -/
structure BinaryFormat.Covers (format : BinaryFormat) (number : Nat) : Prop where
  precision : 0 < format.precision
  least : format.minExponent ≤ 1 - (format.precision : Int)
  most : (Nat.log2 number + 1 : Int) - format.precision < format.maxExponent

section FloatingPoint

variable {format : BinaryFormat}

theorem log2_mul_pow {number : Nat} (hnumber : number ≠ 0) (scale : Nat) :
    Nat.log2 (number * 2 ^ scale) = Nat.log2 number + scale := by
  rw [Nat.log2_eq_iff (Nat.mul_ne_zero hnumber (Nat.two_pow_pos scale).ne')]
  constructor
  · rw [Nat.pow_add]
    exact Nat.mul_le_mul_right _ (Nat.log2_self_le hnumber)
  · rw [Nat.add_right_comm, Nat.pow_add]
    exact Nat.mul_lt_mul_of_pos_right Nat.lt_log2_self (Nat.two_pow_pos scale)

theorem floorLog2_eq {number : Nat} (hnumber : number ≠ 0) (scale : Nat) :
    floorLog2 (number * 2 ^ scale) (2 ^ scale) = Nat.log2 number := by
  have hguess : ((Nat.log2 (number * 2 ^ scale) : Int) - Nat.log2 (2 ^ scale)) =
      Nat.log2 number := by
    rw [log2_mul_pow hnumber, Nat.log2_two_pow]
    omega
  have hfloor : 2 ^ scale * 2 ^ Nat.log2 number ≤ number * 2 ^ scale := by
    rw [Nat.mul_comm]
    exact Nat.mul_le_mul_right _ (Nat.log2_self_le hnumber)
  rw [floorLog2, hguess, scaleRatio]
  dsimp only
  rw [Int.toNat_neg_natCast, Nat.pow_zero, Nat.mul_one, Int.toNat_natCast, if_pos hfloor]

/-- A number is rounded at the exponent that its logarithm and the precision give, when the
format covers it. -/
theorem roundRatio_pos {number : Nat} (hcovers : format.Covers number) (hnumber : number ≠ 0)
    (scale : Nat) {exponent : Int}
    (hexponent : exponent = Nat.log2 number + 1 - (format.precision : Int)) :
    roundRatio format false (number * 2 ^ scale) (2 ^ scale) =
      .finite false (roundHalfEven (number * 2 ^ (-exponent).toNat) (2 ^ exponent.toNat))
        exponent := by
  have hleast := hcovers.least
  have hmost := hcovers.most
  have hmax : max format.minExponent
      (floorLog2 (number * 2 ^ scale) (2 ^ scale) - (format.precision - 1)) = exponent := by
    rw [floorLog2_eq hnumber]
    omega
  have hnum : number * 2 ^ scale * 2 ^ (-exponent).toNat =
      2 ^ scale * (number * 2 ^ (-exponent).toNat) := by
    rw [Nat.mul_right_comm, Nat.mul_comm]
  have hroom : ¬ (format.maxExponent < exponent ∨ format.maxExponent = exponent ∧
      roundHalfEven (number * 2 ^ (-exponent).toNat) (2 ^ exponent.toNat) =
        2 ^ format.precision) := by omega
  rw [roundRatio, if_neg (Nat.mul_ne_zero hnumber (Nat.two_pow_pos scale).ne'), hmax]
  dsimp only [scaleRatio]
  rw [hnum, (roundHalfEven_eq_iff (by positivity)).mpr
    ((roundHalfEven_nearest (Nat.two_pow_pos _)).mul_left (Nat.two_pow_pos scale)), if_neg hroom]

/-- A natural number, given as a quotient by a power of two, is rounded to its significand. -/
theorem roundRatio_isNat {number : Nat} (hcovers : format.Covers number) (scale : Nat) :
    (roundRatio format false (number * 2 ^ scale) (2 ^ scale)).IsNat
      (roundSignificand format.precision number) := by
  obtain ⟨hprecision, hleast, hmost⟩ := hcovers
  rcases Nat.eq_zero_or_pos number with rfl | hnumber
  · rw [Nat.zero_mul, roundRatio, if_pos rfl, roundSignificand_short (by rw [Nat.log2_zero]; omega)]
    exact .of rfl
  obtain ⟨exponent, hexponent⟩ :
      ∃ exponent, exponent = Nat.log2 number + 1 - (format.precision : Int) := ⟨_, rfl⟩
  rw [roundRatio_pos ⟨hprecision, hleast, hmost⟩ hnumber.ne' scale hexponent]
  constructor
  rcases Nat.lt_or_ge (Nat.log2 number + 1) format.precision with hshort | hlong
  · have hzero : exponent.toNat = 0 := by omega
    rw [hzero, roundSignificand_short hshort.le, Nat.pow_zero, roundHalfEven_one, Nat.mul_one]
  · have hspacing : 2 ^ exponent.toNat = significandSpacing format.precision number := by
      rw [significandSpacing]
      congr 1
      omega
    have hzero : (-exponent).toNat = 0 := by omega
    rw [hzero, Nat.pow_zero, Nat.mul_one, Nat.mul_one, hspacing, roundSignificand]

@[simp] theorem signedNat_false (magnitude : Nat) : signedNat false magnitude = magnitude := rfl

/-- The conversion of a natural number rounds it. -/
theorem ofInt_isNat {number : Nat} (hcovers : format.Covers number) :
    (FloatValue.ofInt format number).IsNat (roundSignificand format.precision number) := by
  have hrounded := roundRatio_isNat hcovers 0
  rw [Nat.pow_zero, Nat.mul_one] at hrounded
  rw [FloatValue.ofInt, Int.natAbs_natCast, decide_eq_false (by omega)]
  exact hrounded

/-- A mantissa brought to a smaller exponent. -/
theorem isNat_common {mantissa number : Nat} {exponent common : Int} (hle : common ≤ exponent)
    (h : mantissa * 2 ^ exponent.toNat = number * 2 ^ (-exponent).toNat) :
    mantissa * 2 ^ (exponent - common).toNat * 2 ^ common.toNat =
      number * 2 ^ (-common).toNat := by
  have hexponents : (exponent - common).toNat + common.toNat + (-exponent).toNat =
      exponent.toNat + (-common).toNat := by omega
  apply Nat.eq_of_mul_eq_mul_right (Nat.two_pow_pos (-exponent).toNat)
  calc mantissa * 2 ^ (exponent - common).toNat * 2 ^ common.toNat * 2 ^ (-exponent).toNat
      = mantissa * 2 ^ ((exponent - common).toNat + common.toNat + (-exponent).toNat) := by
        rw [Nat.pow_add, Nat.pow_add, ← Nat.mul_assoc, ← Nat.mul_assoc]
    _ = mantissa * 2 ^ exponent.toNat * 2 ^ (-common).toNat := by
        rw [hexponents, Nat.pow_add, Nat.mul_assoc]
    _ = number * 2 ^ (-common).toNat * 2 ^ (-exponent).toNat := by
        rw [h, Nat.mul_right_comm]

/-- The sum of two natural numbers rounds their exact sum. -/
theorem add_isNat {x y : FloatValue} {first second : Nat} (hx : x.IsNat first)
    (hy : y.IsNat second) (hcovers : format.Covers (first + second)) :
    (x.add format y).IsNat (roundSignificand format.precision (first + second)) := by
  obtain @⟨mantissa, exponent, _, hfirst⟩ := hx
  obtain @⟨mantissa', exponent', _, hsecond⟩ := hy
  have hleft := isNat_common (min_le_left exponent exponent') hfirst
  have hright := isNat_common (min_le_right exponent exponent') hsecond
  rw [FloatValue.add, signedNat_false, signedNat_false]
  generalize min exponent exponent' = common at *
  generalize mantissa * 2 ^ (exponent - common).toNat = left at *
  generalize mantissa' * 2 ^ (exponent' - common).toNat = right at *
  have hsum : (left + right) * 2 ^ common.toNat = (first + second) * 2 ^ (-common).toNat := by
    rw [Nat.add_mul, Nat.add_mul, hleft, hright]
  split
  · rename_i hzero
    have hnone : first + second = 0 := by
      have hleft : left + right = 0 := by omega
      rw [hleft, Nat.zero_mul] at hsum
      exact (Nat.mul_eq_zero.mp hsum.symm).resolve_right (Nat.two_pow_pos _).ne'
    have hshort : Nat.log2 0 + 1 ≤ format.precision := hcovers.precision
    rw [hnone, roundSignificand_short hshort]
    exact .of rfl
  · have hnum : ((left : Int) + right).natAbs * 2 ^ common.toNat =
        (first + second) * 2 ^ (-common).toNat := hsum
    rw [hnum, decide_eq_false (by omega)]
    exact roundRatio_isNat hcovers _

/-- An integer is its own nearest integer. -/
theorem lround_isNat {x : FloatValue} {number : Nat} (hx : x.IsNat number)
    (hsmall : number < 2 ^ 63) : x.lround = some (number : Int) := by
  obtain @⟨mantissa, exponent, _, hnumber⟩ := hx
  have hround : (2 * (number * 2 ^ (-exponent).toNat) + 2 ^ (-exponent).toNat) /
      (2 * 2 ^ (-exponent).toNat) = number := by
    have hpos := Nat.two_pow_pos (-exponent).toNat
    generalize 2 ^ (-exponent).toNat = den at hpos
    apply Nat.div_eq_of_lt_le
    · linarith
    · linarith
  simp only [FloatValue.lround, scaleRatio, Int.neg_neg, hnumber, Nat.one_mul, hround,
    signedNat_false]
  rw [if_neg (by omega)]

end FloatingPoint

end AirspyhfWsprd.Library
