import AirspyhfWsprd.Library.CText
import AirspyhfWsprd.Library.FloatValue

/-!
The conversions of `printf` that the program uses: integers, strings, and
floating-point values in fixed notation, each with its field width.
-/

namespace AirspyhfWsprd.Library

/-- The decimal digits of a number. -/
def decimal (value : Nat) : CString := (Nat.toDigits 10 value).map Char.toUInt8

/-- Right-justified in a field of this width. -/
def padLeft (width : Nat) (text : CString) : CString :=
  List.replicate (width - text.length) ' '.toUInt8 ++ text

/-- Left-justified, the `-` flag. -/
def padRight (width : Nat) (text : CString) : CString :=
  text ++ List.replicate (width - text.length) ' '.toUInt8

/-- `%d` without a width -/
def printInt (value : Int) : CString :=
  if value < 0 then '-'.toUInt8 :: decimal value.natAbs else decimal value.natAbs

/-- The last `count` decimal digits of a number, with leading zeros. -/
def lastDigits (count value : Nat) : CString :=
  let text := decimal (value % 10 ^ count)
  List.replicate (count - text.length) '0'.toUInt8 ++ text

/-- `value / 10 ^ digits` with that many digits behind the point. -/
def fixedPoint (digits value : Nat) : CString :=
  if digits = 0 then decimal value
  else decimal (value / 10 ^ digits) ++ '.'.toUInt8 :: lastDigits digits value

/-- `%.<digits>f` without a width: exact, rounded half to even -/
def printFixed (digits : Nat) (value : FloatValue) : CString :=
  let sign (negative : Bool) : CString := if negative then ['-'.toUInt8] else []
  match value with
  | .finite negative mantissa exponent =>
      let (num, den) := scaleRatio (mantissa * 10 ^ digits) 1 (-exponent)
      sign negative ++ fixedPoint digits (roundHalfEven num den)
  | .infinite negative => sign negative ++ bytes "inf"
  | .nan negative => sign negative ++ bytes "nan"

example : printFixed 1 (.finite true 13421773 (-24)) = bytes "-0.8" := by decide

end AirspyhfWsprd.Library
