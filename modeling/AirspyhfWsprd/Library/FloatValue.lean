import Mathlib.Algebra.Ring.Int.Defs
import Mathlib.Algebra.Ring.Nat
import Mathlib.Tactic.Common

/-!
IEEE 754 binary floating-point values, as C's `float` and `double` hold them. A
finite value is a sign, a natural mantissa and a power of two; rounding is to the
nearest value, ties to an even mantissa.
-/

namespace AirspyhfWsprd.Library

/-- Number of mantissa bits, and the exponents of the smallest and of the largest
unit in the last place. -/
structure BinaryFormat where
  precision : Nat
  minExponent : Int
  maxExponent : Int

/-- `float` -/
def binary32 : BinaryFormat := ⟨24, -149, 104⟩

/-- `double` -/
def binary64 : BinaryFormat := ⟨53, -1074, 971⟩

/-- A finite value stands for `mantissa * 2 ^ exponent` with its sign. -/
inductive FloatValue where
  | finite (negative : Bool) (mantissa : Nat) (exponent : Int)
  | infinite (negative : Bool)
  | nan (negative : Bool)
deriving DecidableEq

/-- The values of a format. The mantissa may have been rounded up to the next power
of two. -/
def FloatValue.InFormat (format : BinaryFormat) : FloatValue → Prop
  | .finite _ mantissa exponent =>
      mantissa ≤ 2 ^ format.precision ∧ format.minExponent ≤ exponent ∧
        exponent ≤ format.maxExponent
  | .infinite _ | .nan _ => True

/-- The integer nearest to `num / den`, ties to even. -/
def roundHalfEven (num den : Nat) : Nat :=
  let quotient := num / den
  let twice := 2 * (num % den)
  if twice < den then quotient
  else if den < twice then quotient + 1
  else if quotient % 2 = 0 then quotient else quotient + 1

/-- `num * 2 ^ -exponent / den` as a pair of naturals. -/
def scaleRatio (num den : Nat) (exponent : Int) : Nat × Nat :=
  (num * 2 ^ (-exponent).toNat, den * 2 ^ exponent.toNat)

/-- The exponent of the largest power of two not above `num / den`. -/
def floorLog2 (num den : Nat) : Int :=
  let guess : Int := (Nat.log2 num : Int) - Nat.log2 den
  let (n, d) := scaleRatio num den guess
  if d ≤ n then guess else guess - 1

/-- The value of the format nearest to `num / den` with this sign. -/
def roundRatio (format : BinaryFormat) (negative : Bool) (num den : Nat) : FloatValue :=
  if num = 0 then .finite negative 0 0
  else
    let exponent := max format.minExponent (floorLog2 num den - (format.precision - 1))
    let (n, d) := scaleRatio num den exponent
    let mantissa := roundHalfEven n d
    if format.maxExponent < exponent ∨
        format.maxExponent = exponent ∧ mantissa = 2 ^ format.precision then .infinite negative
    else .finite negative mantissa exponent

/-- The conversion from an integer type. -/
def FloatValue.ofInt (format : BinaryFormat) (value : Int) : FloatValue :=
  roundRatio format (value < 0) value.natAbs 1

/-- `value / divisor` for a positive integer divisor. -/
def FloatValue.divNat (format : BinaryFormat) (value : FloatValue) (divisor : Nat) :
    FloatValue :=
  match value with
  | .finite negative mantissa exponent =>
      roundRatio format negative (mantissa * 2 ^ exponent.toNat)
        (divisor * 2 ^ (-exponent).toNat)
  | other => other

/-- The quotient of two values, rounded to the format; a division by zero gives an infinity,
and of zero by zero a NaN. -/
def FloatValue.div (format : BinaryFormat) : FloatValue → FloatValue → FloatValue
  | .finite negative mantissa exponent, .finite negative' mantissa' exponent' =>
      if mantissa' = 0 then if mantissa = 0 then .nan false else .infinite (negative != negative')
      else roundRatio format (negative != negative')
        (mantissa * 2 ^ (exponent - exponent').toNat) (mantissa' * 2 ^ (exponent' - exponent).toNat)
  | .nan negative, _ | _, .nan negative => .nan negative
  | .infinite _, .infinite _ => .nan false
  | .infinite negative, .finite negative' _ _ => .infinite (negative != negative')
  | .finite negative _ _, .infinite negative' => .finite (negative != negative') 0 0

def signedNat (negative : Bool) (magnitude : Nat) : Int :=
  if negative then -magnitude else magnitude

/-- The sum of two values. A sum of zero is negative only when both values are. -/
def FloatValue.add (format : BinaryFormat) : FloatValue → FloatValue → FloatValue
  | .finite negative mantissa exponent, .finite negative' mantissa' exponent' =>
      let common := min exponent exponent'
      let left := signedNat negative (mantissa * 2 ^ (exponent - common).toNat)
      let right := signedNat negative' (mantissa' * 2 ^ (exponent' - common).toNat)
      if left + right = 0 then .finite (negative && negative') 0 0
      else roundRatio format (left + right < 0) ((left + right).natAbs * 2 ^ common.toNat)
        (2 ^ (-common).toNat)
  | .nan negative, _ | _, .nan negative => .nan negative
  | .infinite negative, .infinite negative' =>
      if negative = negative' then .infinite negative else .nan false
  | .infinite negative, .finite .. | .finite .., .infinite negative => .infinite negative

/-- `lroundf`: the nearest integer, half-way cases away from zero; nothing where it does not
fit into a `long`. -/
def FloatValue.lround : FloatValue → Option Int
  | .finite negative mantissa exponent =>
      let (num, den) := scaleRatio mantissa 1 (-exponent)
      let rounded := signedNat negative ((2 * num + den) / (2 * den))
      if rounded < -2 ^ 63 ∨ 2 ^ 63 ≤ rounded then none else some rounded
  | .infinite _ | .nan _ => none

/-- `value < bound` for an integer bound; false for a value that is not a number. -/
def FloatValue.ltInt (value : FloatValue) (bound : Int) : Bool :=
  match value with
  | .finite negative mantissa exponent =>
      let signed : Int := if negative then -mantissa else mantissa
      signed * 2 ^ exponent.toNat < bound * 2 ^ (-exponent).toNat
  | .infinite negative => negative
  | .nan _ => false

/-- `value > bound` for an integer bound; false for a value that is not a number. -/
def FloatValue.gtInt (value : FloatValue) (bound : Int) : Bool :=
  match value with
  | .finite negative mantissa exponent =>
      let signed : Int := if negative then -mantissa else mantissa
      bound * 2 ^ (-exponent).toNat < signed * 2 ^ exponent.toNat
  | .infinite negative => !negative
  | .nan _ => false

/-- The number that a finite value stands for. -/
def FloatValue.exact : FloatValue → Option Rat
  | .finite negative mantissa exponent =>
      let signed : Int := if negative then -mantissa else mantissa
      some (mkRat (signed * 2 ^ exponent.toNat) (2 ^ (-exponent).toNat))
  | .infinite _ | .nan _ => none

/-- `fabsf(x - y) <= distance`, with the difference taken exactly. -/
def FloatValue.within (distance : Rat) (x y : FloatValue) : Bool :=
  match x.exact, y.exact with
  | some x, some y => x - y ≤ distance && y - x ≤ distance
  | _, _ => false

theorem FloatValue.within_self {distance : Rat} (hdistance : 0 ≤ distance) {x : FloatValue}
    (hx : x.exact.isSome) : x.within distance x = true := by
  obtain ⟨value, hvalue⟩ := Option.isSome_iff_exists.mp hx
  rw [within, hvalue]
  simp only [Rat.sub_self, hdistance, decide_true, Bool.and_self]

example : roundRatio binary32 false 8 10 = .finite false 13421773 (-24) := by decide

end AirspyhfWsprd.Library
