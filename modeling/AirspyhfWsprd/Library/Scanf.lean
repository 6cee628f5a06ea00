import AirspyhfWsprd.Library.CText
import AirspyhfWsprd.Library.FloatValue

/-!
The conversions of `sscanf` that the program uses. A conversion takes the longest
piece of the input that begins a text of its format, and fails when that piece is
not itself such a text. It gives the value and the input behind the piece.
-/

namespace AirspyhfWsprd.Library

/-- The white space in front of a conversion, and a blank in the format. -/
def skipSpace (input : CString) : CString := input.dropWhile isspace

/-- `%<width>[...]`: at least one character of the class, at most `width`. -/
def scanClass (width : Nat) (inClass : UInt8 → Bool) (input : CString) :
    Option (CString × CString) :=
  let item := (input.take width).takeWhile inClass
  if item = [] then none else some (item, input.drop item.length)

/-- `%<width>s` -/
def scanString (width : Nat) (input : CString) : Option (CString × CString) :=
  scanClass width (fun c => !isspace c) (skipSpace input)

/-- A sign, if there is one; true for a minus. -/
def scanSign : CString → Bool × CString
  | [] => (false, [])
  | c :: rest =>
      if c = '-'.toUInt8 then (true, rest)
      else if c = '+'.toUInt8 then (false, rest)
      else (false, c :: rest)

def digitValue (c : UInt8) : Nat :=
  if isdigit c then c.toNat - '0'.toNat else (tolower c).toNat - 'a'.toNat + 10

def digitsValue (base : Nat) (digits : CString) : Nat :=
  digits.foldl (fun value c => base * value + digitValue c) 0

/-- A sign and decimal digits. -/
def scanDecimal (input : CString) : Option (Bool × Nat × CString) :=
  let (negative, rest) := scanSign (skipSpace input)
  let (digits, rest) := rest.span isdigit
  if digits = [] then none else some (negative, digitsValue 10 digits, rest)

/-- `%d`: what `strtol` gives, cut to 32 bits. -/
def scanInt (input : CString) : Option (Int32 × CString) :=
  (scanDecimal input).map fun (negative, magnitude, rest) =>
    let value : Int := if negative then -magnitude else magnitude
    (Int32.ofInt (max (-2 ^ 63) (min value (2 ^ 63 - 1))), rest)

/-- `%u`: what `strtoul` gives, cut to 32 bits. -/
def scanUnsigned (input : CString) : Option (UInt32 × CString) :=
  (scanDecimal input).map fun (negative, magnitude, rest) =>
    let value := UInt32.ofNat (min magnitude (2 ^ 64 - 1))
    (if negative ∧ magnitude < 2 ^ 64 then -value else value, rest)

/-- `strtoul` with base 10: the value, whether it set `errno`, and the text behind the
number; nothing when there is no number. -/
def strtoul (input : CString) : Option (UInt64 × Bool × CString) :=
  (scanDecimal input).map fun (negative, magnitude, rest) =>
    if 2 ^ 64 ≤ magnitude then (UInt64.ofNat (2 ^ 64 - 1), true, rest)
    else (if negative then -UInt64.ofNat magnitude else UInt64.ofNat magnitude, false, rest)

/-- `%llu` -/
def scanUnsignedLong (input : CString) : Option (UInt64 × CString) :=
  (strtoul input).map fun (value, _, rest) => (value, rest)

/-- The digits before the point and those behind it, of which one part may be missing. -/
def scanMantissa (inBase : UInt8 → Bool) (input : CString) :
    Option (CString × CString × CString) :=
  let (whole, rest) := input.span inBase
  let (fraction, rest) :=
    match rest with
    | c :: behind => if c = '.'.toUInt8 then behind.span inBase else ([], rest)
    | [] => ([], [])
  if whole = [] ∧ fraction = [] then none else some (whole, fraction, rest)

/-- An exponent after this letter, or none. A letter without digits behind it
cannot be given back. -/
def scanExponent (letter : UInt8) (input : CString) : Option (Int × CString) :=
  match input with
  | [] => some (0, [])
  | c :: behind =>
      if tolower c = letter then
        let (negative, rest) := scanSign behind
        let (digits, rest) := rest.span isdigit
        if digits = [] then none
        else some (if negative then -(digitsValue 10 digits : Int) else digitsValue 10 digits, rest)
      else some (0, input)

/-- `digits * base ^ exponent` -/
def scaleDigits (format : BinaryFormat) (negative : Bool) (mantissa base : Nat) (exponent : Int) :
    FloatValue :=
  roundRatio format negative (mantissa * base ^ exponent.toNat) (base ^ (-exponent).toNat)

def scanDecimalFloat (format : BinaryFormat) (negative : Bool) (input : CString) :
    Option (FloatValue × CString) := do
  let (whole, fraction, rest) ← scanMantissa isdigit input
  let (exponent, rest) ← scanExponent 'e'.toUInt8 rest
  some (scaleDigits format negative (digitsValue 10 (whole ++ fraction)) 10
    (exponent - fraction.length), rest)

def isxdigit (c : UInt8) : Bool := isdigit c || ('a'.toUInt8 ≤ tolower c && tolower c ≤ 'f'.toUInt8)

/-- The rest of a hexadecimal number behind its `0x`. -/
def scanHexFloat (format : BinaryFormat) (negative : Bool) (input : CString) :
    Option (FloatValue × CString) := do
  let (whole, fraction, rest) ← scanMantissa isxdigit input
  let (exponent, rest) ← scanExponent 'p'.toUInt8 rest
  some (scaleDigits format negative (digitsValue 16 (whole ++ fraction)) 2
    (exponent - 4 * fraction.length), rest)

/-- How many characters the input has in common with a word, in either case. -/
def commonLength : (word input : CString) → Nat
  | letter :: word, c :: input => if tolower c = letter then commonLength word input + 1 else 0
  | _, _ => 0

/-- `inf` or `infinity`, and nothing in between. -/
def scanInfinity (negative : Bool) (input : CString) : Option (FloatValue × CString) :=
  let count := commonLength (bytes "infinity") input
  if count = 3 ∨ count = 8 then some (.infinite negative, input.drop count) else none

/-- `nan`, or `nan` with a text in parentheses. -/
def scanNan (negative : Bool) (input : CString) : Option (FloatValue × CString) :=
  if commonLength (bytes "nan") input ≠ 3 then none
  else
    match input.drop 3 with
    | c :: behind =>
        if c ≠ '('.toUInt8 then some (.nan negative, c :: behind)
        else
          match behind.dropWhile fun c => isalnum c || c == '_'.toUInt8 with
          | c :: rest => if c = ')'.toUInt8 then some (.nan negative, rest) else none
          | [] => none
    | [] => some (.nan negative, [])

/-- `%f`, and `%lf` with the format of a `double`: a decimal or hexadecimal number, an infinity
or a NaN, and the input behind it. -/
def scanFloat (format : BinaryFormat) (input : CString) : Option (FloatValue × CString) :=
  let (negative, rest) := scanSign (skipSpace input)
  match rest with
  | [] => none
  | c :: behind =>
      if tolower c = 'i'.toUInt8 then scanInfinity negative rest
      else if tolower c = 'n'.toUInt8 then scanNan negative rest
      else if c = '0'.toUInt8 ∧ behind.head?.map tolower = some 'x'.toUInt8 then
        scanHexFloat format negative (behind.drop 1)
      else scanDecimalFloat format negative rest

example : scanFloat binary32 (bytes "  -1.50e1x") =
    some (.finite true 15728640 (-20), bytes "x") := by decide

end AirspyhfWsprd.Library
