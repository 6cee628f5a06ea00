import Mathlib.Data.List.Basic
import Mathlib.Data.List.TakeDrop
import Mathlib.Tactic.IntervalCases
import AirspyhfWsprd.Library.Printf
import AirspyhfWsprd.Library.Scanf

/-!
Reading back what was printed: a scanning conversion finds in a padded field what
the printing conversion put there, and stops at the blank behind it.
-/

namespace AirspyhfWsprd.Library

variable {α : Type*}

/-- Nothing, or white space in front. -/
def EndsWord (rest : CString) : Prop := ∀ c ∈ rest.head?, isspace c = true

theorem endsWord_nil : EndsWord [] := fun _ h => nomatch h

theorem endsWord_cons {c : UInt8} {rest : CString} (h : isspace c = true) :
    EndsWord (c :: rest) := by
  intro c' hc'
  obtain rfl := Option.some.inj hc'
  exact h

/-- The conversion finds this value in the text, whatever comes behind it. -/
def Reads (scan : CString → Option (α × CString)) (text : CString) (value : α) : Prop :=
  ∀ rest, EndsWord rest → scan (text ++ rest) = some (value, rest)

/-- The conversion passes over white space in front. -/
def SkipsSpace (scan : CString → Option (α × CString)) : Prop :=
  ∀ c input, isspace c = true → scan (c :: input) = scan input

theorem skipSpace_cons {c : UInt8} (input : CString) (h : isspace c = true) :
    skipSpace (c :: input) = skipSpace input := by
  rw [skipSpace, List.dropWhile_cons_of_pos h, skipSpace]

theorem scanString_skips (width : Nat) : SkipsSpace (scanString width) := by
  intro c input h
  rw [scanString, skipSpace_cons input h, scanString]

theorem scanInt_skips : SkipsSpace scanInt := by
  intro c input h
  rw [scanInt, scanDecimal, skipSpace_cons input h, scanInt, scanDecimal]

theorem scanUnsigned_skips : SkipsSpace scanUnsigned := by
  intro c input h
  rw [scanUnsigned, scanDecimal, skipSpace_cons input h, scanUnsigned, scanDecimal]

theorem scanFloat_skips (format : BinaryFormat) : SkipsSpace (scanFloat format) := by
  intro c input h
  rw [scanFloat, skipSpace_cons input h, scanFloat]

theorem SkipsSpace.gap {scan : CString → Option (α × CString)} (hskips : SkipsSpace scan)
    {gap : CString} (hgap : ∀ c ∈ gap, isspace c = true) (input : CString) :
    scan (gap ++ input) = scan input := by
  induction gap with
  | nil => rfl
  | cons c gap ih =>
      rw [List.cons_append, hskips c _ (hgap c List.mem_cons_self),
        ih fun c hc => hgap c (List.mem_cons_of_mem _ hc)]

/-- The next field behind a gap. -/
theorem Reads.behind {scan : CString → Option (α × CString)} {text gap rest : CString} {value : α}
    (h : Reads scan text value) (hskips : SkipsSpace scan) (hgap : ∀ c ∈ gap, isspace c = true)
    (hrest : EndsWord rest) : scan (gap ++ (text ++ rest)) = some (value, rest) :=
  (hskips.gap hgap _).trans (h rest hrest)

theorem Reads.padLeft {scan : CString → Option (α × CString)} {text : CString} {value : α}
    (h : Reads scan text value) (hskips : SkipsSpace scan) (width : Nat) :
    Reads scan (padLeft width text) value := by
  intro rest hrest
  rw [Library.padLeft, List.append_assoc, hskips.gap fun c hc => ?_]
  · exact h rest hrest
  · rw [List.eq_of_mem_replicate hc]
    decide

/-- Printable in a field that is read back as one word. -/
structure IsWord (limit : Nat) (text : CString) : Prop where
  nonempty : text ≠ []
  length : text.length ≤ limit
  solid : ∀ c ∈ text, isspace c = false

instance (limit : Nat) (text : CString) : Decidable (IsWord limit text) :=
  decidable_of_iff (text ≠ [] ∧ text.length ≤ limit ∧ text.all (!isspace ·) = true)
    ⟨fun h => ⟨h.1, h.2.1, by simpa using h.2.2⟩,
      fun h => ⟨h.nonempty, h.length, by simpa using h.solid⟩⟩

theorem IsWord.mono {limit limit' : Nat} {text : CString} (h : IsWord limit text)
    (hle : limit ≤ limit') : IsWord limit' text :=
  ⟨h.nonempty, Nat.le_trans h.length hle, h.solid⟩

theorem takeWhile_word {text rest : CString} {p : UInt8 → Bool} (htext : ∀ c ∈ text, p c = true)
    (hrest : ∀ c ∈ rest.head?, p c = false) : (text ++ rest).takeWhile p = text := by
  rw [List.takeWhile_append_of_pos htext]
  cases rest with
  | nil => rw [List.takeWhile_nil, List.append_nil]
  | cons c rest =>
      rw [List.takeWhile_cons_of_neg (by simp [hrest c rfl]), List.append_nil]

theorem skipSpace_solid {text : CString} (h : ∀ c ∈ text.head?, isspace c = false) :
    skipSpace text = text := by
  cases text with
  | nil => rfl
  | cons c text => rw [skipSpace, List.dropWhile_cons_of_neg (by simp [h c rfl])]

/-- The conversion `%s` takes a printed word as a whole when the word is within its limit, and
stops at the blank behind it. -/
theorem IsWord.reads {limit : Nat} {text : CString} (h : IsWord limit text) :
    Reads (scanString limit) text text := by
  intro rest hrest
  have hhead : ∀ c ∈ (text ++ rest).head?, isspace c = false := by
    obtain ⟨c, tail, rfl⟩ := List.exists_cons_of_ne_nil h.nonempty
    intro c' hc'
    obtain rfl := Option.some.inj hc'
    exact h.solid _ List.mem_cons_self
  have hitem : ((text ++ rest).take limit).takeWhile (fun c => !isspace c) = text := by
    rw [List.take_append, List.take_of_length_le h.length]
    refine takeWhile_word (fun c hc => by simp [h.solid c hc]) fun c hc => ?_
    rw [List.head?_take] at hc
    split at hc
    · cases hc
    · simp [hrest c hc]
  rw [scanString, skipSpace_solid hhead, scanClass, hitem, if_neg h.nonempty, List.drop_left]

theorem toUInt8_digitChar {d : Nat} (h : d < 10) :
    (Nat.digitChar d).toUInt8 = UInt8.ofNat (48 + d) := by
  interval_cases d <;> rfl

theorem decimal_cons (n : Nat) : decimal n =
    (if n < 10 then [] else decimal (n / 10)) ++ [UInt8.ofNat (48 + n % 10)] := by
  unfold decimal
  rw [Nat.toDigits_eq_if (by decide)]
  split
  · rename_i h
    rw [Nat.mod_eq_of_lt h, List.map_singleton, toUInt8_digitChar h, List.nil_append]
  · rw [List.map_append, List.map_singleton, toUInt8_digitChar (Nat.mod_lt _ (by decide))]

theorem digit_ofNat {d : Nat} (h : d < 10) : isdigit (UInt8.ofNat (48 + d)) = true ∧
    digitValue (UInt8.ofNat (48 + d)) = d := by
  interval_cases d <;> decide

theorem digit_of_mem_decimal {n : Nat} {c : UInt8} (h : c ∈ decimal n) : isdigit c = true := by
  induction n using Nat.strongRecOn with
  | ind n ih =>
      rw [decimal_cons] at h
      rcases List.mem_append.mp h with h | h
      · split at h
        · cases h
        · exact ih (n / 10) (by omega) h
      · rw [List.mem_singleton.mp h]
        exact (digit_ofNat (Nat.mod_lt n (by decide))).1

theorem digitsValue_append_singleton (base : Nat) (digits : CString) (c : UInt8) :
    digitsValue base (digits ++ [c]) = base * digitsValue base digits + digitValue c := by
  rw [digitsValue, List.foldl_append, digitsValue]
  rfl

theorem digitsValue_decimal (n : Nat) : digitsValue 10 (decimal n) = n := by
  induction n using Nat.strongRecOn with
  | ind n ih =>
      rw [decimal_cons, digitsValue_append_singleton, (digit_ofNat (Nat.mod_lt n (by decide))).2]
      split
      · rename_i h
        rw [digitsValue, List.foldl_nil]
        omega
      · rw [ih (n / 10) (by omega)]
        omega

theorem decimal_length_le {n k : Nat} (hk : 0 < k) (h : n < 10 ^ k) : (decimal n).length ≤ k := by
  rw [decimal, List.length_map]
  exact (Nat.length_toDigits_le_iff (by decide) hk).mpr h

theorem decimal_ne_nil (n : Nat) : decimal n ≠ [] := by
  rw [decimal_cons]
  exact List.append_ne_nil_of_right_ne_nil _ (List.cons_ne_nil _ _)

theorem isdigit_not_isspace : ∀ c, isdigit c = true → isspace c = false :=
  forall_byte (by decide +kernel)

theorem isspace_not_isdigit {c : UInt8} (h : isspace c = true) : isdigit c = false := by
  rw [← Bool.not_eq_true]
  intro hdigit
  rw [isdigit_not_isspace c hdigit] at h
  cases h

theorem span_word {text rest : CString} {p : UInt8 → Bool} (htext : ∀ c ∈ text, p c = true)
    (hrest : ∀ c ∈ rest.head?, p c = false) : (text ++ rest).span p = (text, rest) := by
  have htake := takeWhile_word htext hrest
  rw [List.span_eq_takeWhile_dropWhile, htake]
  have hsplit := List.takeWhile_append_dropWhile (p := p) (l := text ++ rest)
  rw [htake] at hsplit
  rw [List.append_cancel_left hsplit]

/-- A sign and digits. -/
def signed (negative : Bool) (text : CString) : CString :=
  if negative then '-'.toUInt8 :: text else text

theorem scanSign_signed {text : CString} (negative : Bool)
    (htext : ∀ c ∈ text.head?, c ≠ '-'.toUInt8 ∧ c ≠ '+'.toUInt8) :
    scanSign (signed negative text) = (negative, text) := by
  cases negative with
  | true => rfl
  | false =>
      cases text with
      | nil => rfl
      | cons c text =>
          rw [signed, if_neg (by decide), scanSign, if_neg (htext c rfl).1, if_neg (htext c rfl).2]

theorem isdigit_not_sign : ∀ c, isdigit c = true → c ≠ '-'.toUInt8 ∧ c ≠ '+'.toUInt8 :=
  forall_byte (by decide +kernel)

theorem head_decimal_append {n : Nat} {rest : CString} {c : UInt8}
    (h : c ∈ (decimal n ++ rest).head?) : isdigit c = true := by
  rw [List.head?_append_of_ne_nil _ (decimal_ne_nil n)] at h
  exact digit_of_mem_decimal (List.mem_of_mem_head? h)

/-- A printed integer is scanned as its sign and its digits, and the scan ends with the word. -/
theorem scanDecimal_signed (negative : Bool) (n : Nat) {rest : CString} (hrest : EndsWord rest) :
    scanDecimal (signed negative (decimal n) ++ rest) = some (negative, n, rest) := by
  have hsolid : skipSpace (signed negative (decimal n) ++ rest) =
      signed negative (decimal n ++ rest) := by
    rw [skipSpace_solid]
    · cases negative <;> rfl
    · cases negative with
      | true =>
          intro c hc
          obtain rfl := Option.some.inj hc
          decide
      | false => exact fun c hc => isdigit_not_isspace c (head_decimal_append hc)
  rw [scanDecimal, hsolid,
    scanSign_signed negative fun c hc => isdigit_not_sign c (head_decimal_append hc)]
  dsimp only
  rw [span_word (fun c hc => digit_of_mem_decimal hc)
    (fun c hc => isspace_not_isdigit (hrest c hc))]
  dsimp only
  rw [if_neg (decimal_ne_nil n), digitsValue_decimal]

/-- `strtoul` reads any decimal number that fits, up to the first other character. -/
theorem strtoul_digits {digits rest : CString} (hne : digits ≠ [])
    (hdigits : ∀ c ∈ digits, isdigit c = true) (hfits : digitsValue 10 digits < 2 ^ 64)
    (hrest : ∀ c ∈ rest.head?, isdigit c = false) :
    strtoul (digits ++ rest) = some (UInt64.ofNat (digitsValue 10 digits), false, rest) := by
  have hhead : ∀ c ∈ (digits ++ rest).head?, isdigit c = true := by
    intro c hc
    rw [List.head?_append_of_ne_nil _ hne] at hc
    exact hdigits c (List.mem_of_mem_head? hc)
  have hsign : scanSign (digits ++ rest) = (false, digits ++ rest) :=
    scanSign_signed false fun c hc => isdigit_not_sign c (hhead c hc)
  rw [strtoul, scanDecimal, skipSpace_solid fun c hc => isdigit_not_isspace c (hhead c hc), hsign]
  dsimp only
  rw [span_word hdigits hrest]
  dsimp only
  rw [if_neg hne, Option.map_some]
  dsimp only
  rw [if_neg (Nat.not_le.mpr hfits), if_neg Bool.false_ne_true]

theorem printInt_eq (value : Int) : printInt value = signed (value < 0) (decimal value.natAbs) := by
  rw [printInt, signed]
  simp only [decide_eq_true_eq]

/-- A printed 32-bit integer is read back as itself: its digits are never out of the range of
the conversion. -/
theorem scanInt_reads (value : Int32) : Reads scanInt (printInt value.toInt) value := by
  intro rest hrest
  rw [printInt_eq, scanInt, scanDecimal_signed _ _ hrest]
  have hlow := value.le_toInt
  have hhigh := value.toInt_lt
  have hvalue : (if decide (value.toInt < 0) = true then -(value.toInt.natAbs : Int)
      else value.toInt.natAbs) = value.toInt := by
    split
    · rename_i h
      rw [decide_eq_true_eq] at h
      omega
    · rename_i h
      rw [decide_eq_true_eq] at h
      omega
  simp only [Option.map_some]
  rw [hvalue, min_eq_left (by omega), max_eq_right (by omega), Int32.ofInt_toInt]

theorem scanUnsigned_reads (value : UInt32) : Reads scanUnsigned (decimal value.toNat) value := by
  intro rest hrest
  have h := scanDecimal_signed false value.toNat hrest
  rw [signed, if_neg (by decide)] at h
  have hlt := value.toNat_lt
  rw [scanUnsigned, h]
  simp only [Option.map_some, Bool.false_eq_true, false_and, if_false]
  rw [min_eq_left (by omega), UInt32.ofNat_toNat]

theorem digit_of_mem_lastDigits {count value : Nat} {c : UInt8} (h : c ∈ lastDigits count value) :
    isdigit c = true := by
  rcases List.mem_append.mp h with h | h
  · rw [List.eq_of_mem_replicate h]
    decide
  · exact digit_of_mem_decimal h

/-- A whole number, or one with a point and digits behind it. -/
theorem fixedPoint_cases (digits value : Nat) : ∃ whole fraction : CString,
    (∃ n, whole = decimal n) ∧ (∀ c ∈ fraction, isdigit c = true) ∧
      (fixedPoint digits value = whole ∧ fraction = [] ∨
        fixedPoint digits value = whole ++ '.'.toUInt8 :: fraction) := by
  rw [fixedPoint]
  split
  · exact ⟨decimal value, [], ⟨value, rfl⟩, fun _ h => (nomatch h), Or.inl ⟨rfl, rfl⟩⟩
  · exact ⟨decimal (value / 10 ^ digits), lastDigits digits value, ⟨_, rfl⟩,
      fun _ h => digit_of_mem_lastDigits h, Or.inr rfl⟩

theorem isspace_not_point : ∀ c, isspace c = true → c ≠ '.'.toUInt8 ∧
    tolower c ≠ 'e'.toUInt8 ∧ tolower c ≠ 'x'.toUInt8 ∧ c ≠ '('.toUInt8 ∧
      tolower c ≠ 'i'.toUInt8 :=
  forall_byte (by decide +kernel)

theorem isdigit_not_letter : ∀ c, isdigit c = true → tolower c ≠ 'i'.toUInt8 ∧
    tolower c ≠ 'n'.toUInt8 ∧ tolower c ≠ 'x'.toUInt8 :=
  forall_byte (by decide +kernel)

/-- The digits of a number in fixed notation are scanned to its end, those behind the point
included. It is left open here what value they stand for. -/
theorem scanMantissa_fixedPoint (digits value : Nat) :
    ∃ whole fraction, ∀ rest, EndsWord rest →
      scanMantissa isdigit (fixedPoint digits value ++ rest) = some (whole, fraction, rest) := by
  obtain ⟨_, fraction, ⟨n, rfl⟩, hfraction, ⟨htext, -⟩ | htext⟩ := fixedPoint_cases digits value
  · refine ⟨decimal n, [], fun rest hrest => ?_⟩
    rw [htext, scanMantissa, span_word (fun c hc => digit_of_mem_decimal hc)
      (fun c hc => isspace_not_isdigit (hrest c hc))]
    cases rest with
    | nil => simp [decimal_ne_nil]
    | cons c rest => simp [decimal_ne_nil, (isspace_not_point c (hrest c rfl)).1]
  · refine ⟨decimal n, fraction, fun rest hrest => ?_⟩
    have hpoint : ∀ c ∈ ('.'.toUInt8 :: (fraction ++ rest)).head?, isdigit c = false := by
      intro c hc
      obtain rfl := Option.some.inj hc
      decide
    rw [htext, List.append_assoc, List.cons_append, scanMantissa,
      span_word (fun c hc => digit_of_mem_decimal hc) hpoint]
    simp only [if_true, span_word hfraction fun c hc => isspace_not_isdigit (hrest c hc),
      decimal_ne_nil, false_and, if_false]

theorem scanExponent_none {rest : CString} (hrest : EndsWord rest) :
    scanExponent 'e'.toUInt8 rest = some (0, rest) := by
  cases rest with
  | nil => rfl
  | cons c rest => rw [scanExponent, if_neg (isspace_not_point c (hrest c rfl)).2.1]

theorem mem_fixedPoint {digits value : Nat} {c : UInt8} (h : c ∈ fixedPoint digits value) :
    isdigit c = true ∨ c = '.'.toUInt8 := by
  obtain ⟨_, fraction, ⟨n, rfl⟩, hfraction, ⟨htext, -⟩ | htext⟩ := fixedPoint_cases digits value
  · rw [htext] at h
    exact Or.inl (digit_of_mem_decimal h)
  · rw [htext] at h
    rcases List.mem_append.mp h with h | h
    · exact Or.inl (digit_of_mem_decimal h)
    · rcases List.mem_cons.mp h with h | h
      · exact Or.inr h
      · exact Or.inl (hfraction c h)

/-- The text begins with a digit, and what comes next is not an `x`. -/
theorem fixedPoint_append (digits value : Nat) {rest : CString} (hrest : EndsWord rest) :
    ∃ c behind, fixedPoint digits value ++ rest = c :: behind ∧ isdigit c = true ∧
      behind.head?.map tolower ≠ some 'x'.toUInt8 := by
  obtain ⟨c, behind, htext, hdigit⟩ : ∃ c behind, fixedPoint digits value = c :: behind ∧
      isdigit c = true := by
    obtain ⟨_, fraction, ⟨n, rfl⟩, -, ⟨htext, -⟩ | htext⟩ := fixedPoint_cases digits value <;>
    · obtain ⟨c, tail, hn⟩ := List.exists_cons_of_ne_nil (decimal_ne_nil n)
      rw [htext, hn]
      exact ⟨c, _, rfl, digit_of_mem_decimal (hn ▸ List.mem_cons_self)⟩
  refine ⟨c, behind ++ rest, by rw [htext, List.cons_append], hdigit, fun hx => ?_⟩
  obtain ⟨next, hnext, hletter⟩ := Option.map_eq_some_iff.mp hx
  cases behind with
  | nil => exact (isspace_not_point next (hrest next hnext)).2.2.1 hletter
  | cons c' behind =>
      obtain rfl := Option.some.inj hnext
      rcases mem_fixedPoint (htext ▸ List.mem_cons_of_mem c List.mem_cons_self) with h | h
      · exact (isdigit_not_letter _ h).2.2 hletter
      · rw [h] at hletter
        exact absurd hletter (by decide)

/-- What begins like a number or a word is not passed over as white space. -/
theorem skipSpace_signed {negative : Bool} {c : UInt8} {behind : CString}
    (h : isspace c = false) :
    skipSpace (signed negative (c :: behind)) = signed negative (c :: behind) := by
  apply skipSpace_solid
  intro c' hc'
  cases negative with
  | true =>
      obtain rfl := Option.some.inj hc'
      decide
  | false =>
      obtain rfl := Option.some.inj hc'
      exact h

theorem signed_append (negative : Bool) (text rest : CString) :
    signed negative text ++ rest = signed negative (text ++ rest) := by
  cases negative <;> rfl

/-- The scan of a number chooses by the character behind its sign: the names of infinity and of
a NaN, a hexadecimal number, or a decimal one. -/
theorem scanFloat_signed (format : BinaryFormat) (negative : Bool) (c : UInt8) (behind : CString)
    (hspace : isspace c = false) (hsign : c ≠ '-'.toUInt8 ∧ c ≠ '+'.toUInt8) :
    scanFloat format (signed negative (c :: behind)) =
      if tolower c = 'i'.toUInt8 then scanInfinity negative (c :: behind)
      else if tolower c = 'n'.toUInt8 then scanNan negative (c :: behind)
      else if c = '0'.toUInt8 ∧ behind.head?.map tolower = some 'x'.toUInt8 then
        scanHexFloat format negative (behind.drop 1)
      else scanDecimalFloat format negative (c :: behind) := by
  have hhead : ∀ c' ∈ (c :: behind).head?, c' ≠ '-'.toUInt8 ∧ c' ≠ '+'.toUInt8 := by
    intro c' hc'
    obtain rfl := Option.some.inj hc'
    exact hsign
  rw [scanFloat, skipSpace_signed hspace, scanSign_signed negative hhead]

theorem scanFloat_fixedPoint (format : BinaryFormat) (negative : Bool) (digits value : Nat) :
    ∃ result, Reads (scanFloat format) (signed negative (fixedPoint digits value)) result := by
  obtain ⟨whole, fraction, hmantissa⟩ := scanMantissa_fixedPoint digits value
  refine ⟨scaleDigits format negative (digitsValue 10 (whole ++ fraction)) 10
    (0 - fraction.length), fun rest hrest => ?_⟩
  obtain ⟨c, behind, htext, hdigit, hx⟩ := fixedPoint_append digits value hrest
  have hletter := isdigit_not_letter c hdigit
  rw [signed_append, htext, scanFloat_signed format negative _ _ (isdigit_not_isspace c hdigit)
    (isdigit_not_sign c hdigit), if_neg hletter.1, if_neg hletter.2.1, if_neg fun h => hx h.2,
    ← htext, scanDecimalFloat, hmantissa rest hrest]
  simp only [Option.bind_eq_bind, Option.bind_some, scanExponent_none hrest]

theorem commonLength_word (word : CString) {rest : CString} {c : UInt8}
    (hword : word.map tolower = word) (hc : ∀ c' ∈ rest.head?, tolower c' ≠ c)
    (behind : CString) : commonLength (word ++ c :: behind) (word ++ rest) = word.length := by
  induction word with
  | nil =>
      cases rest with
      | nil => rfl
      | cons c' rest => exact if_neg (hc c' rfl)
  | cons letter word ih =>
      rw [List.cons_append, List.cons_append, commonLength,
        if_pos (List.cons.inj hword).1, ih (List.cons.inj hword).2, List.length_cons]

/-- Infinity is printed as `inf` and read back as infinity, with its sign. -/
theorem scanFloat_inf (format : BinaryFormat) (negative : Bool) :
    Reads (scanFloat format) (signed negative (bytes "inf")) (.infinite negative) := by
  intro rest hrest
  have hcommon : commonLength (bytes "infinity") (bytes "inf" ++ rest) = 3 :=
    commonLength_word (bytes "inf") (by decide)
      (fun c hc => (isspace_not_point c (hrest c hc)).2.2.2.2) (bytes "nity")
  have h := scanFloat_signed format negative 'i'.toUInt8 (bytes "nf" ++ rest)
    (by decide) (by decide)
  rw [signed_append]
  refine h.trans ?_
  have hinfinity : scanInfinity negative (bytes "inf" ++ rest) =
      some (.infinite negative, rest) := by
    rw [scanInfinity, hcommon]
    exact congrArg some (Prod.ext rfl (List.drop_left' (rfl : (bytes "inf").length = 3)))
  rw [if_pos (by decide)]
  exact hinfinity

/-- A NaN is printed as `nan` and read back as one. -/
theorem scanFloat_nan (format : BinaryFormat) (negative : Bool) :
    Reads (scanFloat format) (signed negative (bytes "nan")) (.nan negative) := by
  intro rest hrest
  have h := scanFloat_signed format negative 'n'.toUInt8 (bytes "an" ++ rest)
    (by decide) (by decide)
  rw [signed_append]
  refine h.trans ?_
  have hcommon : commonLength (bytes "nan") (bytes "nan" ++ rest) = 3 := rfl
  have hnan : scanNan negative (bytes "nan" ++ rest) = some (.nan negative, rest) := by
    rw [scanNan, hcommon, if_neg (by decide), show (bytes "nan" ++ rest).drop 3 = rest from
      List.drop_left' (rfl : (bytes "nan").length = 3)]
    cases rest with
    | nil => rfl
    | cons c rest => exact if_pos (isspace_not_point c (hrest c rfl)).2.2.2.1
  rw [if_neg (by decide), if_pos (by decide)]
  exact hnan

theorem sign_append (negative : Bool) (body : CString) :
    (if negative then ['-'.toUInt8] else []) ++ body = signed negative body := by
  cases negative <;> rfl

theorem printFixed_eq (digits : Nat) (value : FloatValue) : ∃ negative, ∃ body : CString,
    printFixed digits value = signed negative body ∧
      ((∃ n, body = fixedPoint digits n) ∨ body = bytes "inf" ∨ body = bytes "nan") := by
  cases value with
  | finite negative mantissa exponent =>
      exact ⟨negative, _, sign_append negative _, Or.inl ⟨_, rfl⟩⟩
  | infinite negative => exact ⟨negative, _, sign_append negative _, Or.inr (Or.inl rfl)⟩
  | nan negative => exact ⟨negative, _, sign_append negative _, Or.inr (Or.inr rfl)⟩

/-- A printed value consists of letters, digits, points and signs. -/
theorem mem_printFixed {digits : Nat} {value : FloatValue} {c : UInt8}
    (h : c ∈ printFixed digits value) :
    isalnum c = true ∨ c = '-'.toUInt8 ∨ c = '.'.toUInt8 := by
  have hdigit (hc : isdigit c = true) : isalnum c = true := by rw [isalnum, hc, Bool.or_true]
  have hword {word : CString} (hword : ∀ c ∈ word, isalnum c = true) (hc : c ∈ word) :
      isalnum c = true ∨ c = '-'.toUInt8 ∨ c = '.'.toUInt8 := Or.inl (hword c hc)
  obtain ⟨negative, body, htext, hbody⟩ := printFixed_eq digits value
  rw [htext] at h
  have hcases : c = '-'.toUInt8 ∨ c ∈ body := by
    cases negative with
    | false => exact Or.inr h
    | true => exact List.mem_cons.mp h
  rcases hcases with hsign | hmem
  · exact Or.inr (Or.inl hsign)
  · rcases hbody with ⟨n, rfl⟩ | rfl | rfl
    · exact (mem_fixedPoint hmem).imp hdigit Or.inr
    · exact hword (List.all_eq_true.mp rfl) hmem
    · exact hword (List.all_eq_true.mp rfl) hmem

/-- Every printed value is accepted, also those that are not numbers. -/
theorem scanFloat_reads (format : BinaryFormat) (digits : Nat) (value : FloatValue) :
    ∃ result, Reads (scanFloat format) (printFixed digits value) result := by
  obtain ⟨negative, body, htext, ⟨n, rfl⟩ | rfl | rfl⟩ := printFixed_eq digits value <;> rw [htext]
  · exact scanFloat_fixedPoint format negative digits n
  · exact ⟨_, scanFloat_inf format negative⟩
  · exact ⟨_, scanFloat_nan format negative⟩

theorem padLeft_length {width : Nat} {text : CString} (h : text.length ≤ width) :
    (padLeft width text).length = width := by
  rw [padLeft, List.length_append, List.length_replicate]
  omega

theorem copyText_word {limit : Nat} {text : CString} (h : IsWord limit text) :
    copyText (limit + 1) text = text :=
  List.take_of_length_le h.length

theorem signed_word {limit : Nat} {text : CString} (negative : Bool) (h : IsWord limit text) :
    IsWord (limit + 1) (signed negative text) := by
  cases negative with
  | true =>
      refine ⟨List.cons_ne_nil _ _, Nat.succ_le_succ h.length, fun c hc => ?_⟩
      rcases List.mem_cons.mp hc with rfl | hc
      · decide
      · exact h.solid c hc
  | false => exact ⟨h.nonempty, Nat.le_succ_of_le h.length, h.solid⟩

theorem decimal_word {n k : Nat} (hk : 0 < k) (h : n < 10 ^ k) : IsWord k (decimal n) :=
  ⟨decimal_ne_nil n, decimal_length_le hk h,
    fun c hc => isdigit_not_isspace c (digit_of_mem_decimal hc)⟩

theorem printInt_word (value : Int32) : IsWord 11 (printInt value.toInt) := by
  have hlow := value.le_toInt
  have hhigh := value.toInt_lt
  rw [printInt_eq]
  exact signed_word _ (decimal_word (k := 10) (by decide) (by omega))

theorem lastDigits_length {count : Nat} (hcount : 0 < count) (value : Nat) :
    (lastDigits count value).length = count := by
  have hlt : value % 10 ^ count < 10 ^ count := Nat.mod_lt _ (Nat.pow_pos (by decide))
  have hlength := decimal_length_le hcount hlt
  rw [lastDigits, List.length_append, List.length_replicate]
  omega

/-- A number in fixed notation is a word whose length the bound on the number gives. -/
theorem fixedPoint_word {digits value k : Nat} (hk : 0 < k) (h : value < 10 ^ (k + digits)) :
    IsWord (k + digits + 1) (fixedPoint digits value) := by
  refine ⟨?_, ?_, fun c hc => ?_⟩
  · obtain ⟨c, behind, h, -, -⟩ := fixedPoint_append digits value endsWord_nil
    rw [List.append_nil] at h
    rw [h]
    exact List.cons_ne_nil _ _
  · rw [fixedPoint]
    split
    · rename_i hdigits
      subst hdigits
      exact Nat.le_succ_of_le (decimal_length_le hk h)
    · rename_i hdigits
      have hwhole : value / 10 ^ digits < 10 ^ k := Nat.div_lt_of_lt_mul (by
        rw [← Nat.pow_add, Nat.add_comm]
        exact h)
      rw [List.length_append, List.length_cons, lastDigits_length (Nat.pos_of_ne_zero hdigits)]
      have := decimal_length_le hk hwhole
      omega
  · rcases mem_fixedPoint hc with h | rfl
    · exact isdigit_not_isspace c h
    · decide

/-- The size of a finite value is below a power of ten; other values have none. -/
def FloatValue.Below (value : FloatValue) (k : Nat) : Prop :=
  match value with
  | .finite _ mantissa exponent => mantissa * 2 ^ exponent.toNat < 10 ^ k * 2 ^ (-exponent).toNat
  | _ => True

theorem roundHalfEven_le {num den : Nat} (bound : Nat) (h : num < bound * den) :
    roundHalfEven num den ≤ bound := by
  have hlt : num / den < bound := Nat.div_lt_of_lt_mul (by rwa [Nat.mul_comm])
  unfold roundHalfEven
  dsimp only
  split
  · exact Nat.le_of_lt hlt
  · split
    · exact hlt
    · split <;> omega

/-- Every printed floating-point value is a word: finite values below the bound by their
digits, the others by their names. -/
theorem printFixed_word {value : FloatValue} {k : Nat} (hk : 0 < k) (h : value.Below k)
    (digits : Nat) : IsWord (k + digits + 3) (printFixed digits value) := by
  have hletters (negative : Bool) (text : CString) (htext : IsWord 3 text) :
      IsWord (k + digits + 3) (signed negative text) := by
    have hword := signed_word negative htext
    exact ⟨hword.nonempty, Nat.le_trans hword.length (by omega), hword.solid⟩
  cases value with
  | finite negative mantissa exponent =>
      have hrounded : roundHalfEven (mantissa * 10 ^ digits * 2 ^ (-(-exponent)).toNat)
          (1 * 2 ^ (-exponent).toNat) < 10 ^ (k + 1 + digits) := by
        refine Nat.lt_of_le_of_lt (roundHalfEven_le (10 ^ (k + digits)) ?_)
          (Nat.pow_lt_pow_right (by decide) (by omega))
        rw [Int.neg_neg, Nat.one_mul, Nat.pow_add]
        calc mantissa * 10 ^ digits * 2 ^ exponent.toNat
            = mantissa * 2 ^ exponent.toNat * 10 ^ digits := Nat.mul_right_comm _ _ _
          _ < 10 ^ k * 2 ^ (-exponent).toNat * 10 ^ digits :=
            Nat.mul_lt_mul_of_pos_right h (Nat.pow_pos (by decide))
          _ = 10 ^ k * 10 ^ digits * 2 ^ (-exponent).toNat := Nat.mul_right_comm _ _ _
      have hword := signed_word negative (fixedPoint_word (Nat.succ_pos k) hrounded)
      have hlimit : k + 1 + digits + 1 + 1 = k + digits + 3 := by omega
      rw [hlimit] at hword
      rw [← sign_append] at hword
      exact hword
  | infinite negative =>
      have hword := hletters negative (bytes "inf")
        (by decide)
      rw [← sign_append] at hword
      exact hword
  | nan negative =>
      have hword := hletters negative (bytes "nan")
        (by decide)
      rw [← sign_append] at hword
      exact hword

/-- The binary logarithm of a quotient is less than the exponent of a power of two that is
above the quotient. -/
theorem floorLog2_lt {num den k : Nat} (hnum : num ≠ 0) (h : num < 2 ^ k * den) :
    floorLog2 num den < k := by
  rw [floorLog2]
  dsimp only [scaleRatio]
  split
  · rename_i hfloor
    have hscaled : 2 ^ ((Nat.log2 num : Int) - Nat.log2 den).toNat * den <
        2 ^ (k + (-((Nat.log2 num : Int) - Nat.log2 den)).toNat) * den := by
      calc 2 ^ ((Nat.log2 num : Int) - Nat.log2 den).toNat * den
          ≤ num * 2 ^ (-((Nat.log2 num : Int) - Nat.log2 den)).toNat := by
            rwa [Nat.mul_comm]
        _ < 2 ^ k * den * 2 ^ (-((Nat.log2 num : Int) - Nat.log2 den)).toNat :=
            Nat.mul_lt_mul_of_pos_right h (Nat.two_pow_pos _)
        _ = 2 ^ (k + (-((Nat.log2 num : Int) - Nat.log2 den)).toNat) * den := by
            rw [Nat.pow_add, Nat.mul_right_comm]
    have hexponents :=
      (Nat.pow_lt_pow_iff_right (by decide)).mp (Nat.lt_of_mul_lt_mul_right hscaled)
    omega
  · have hfloor : 2 ^ Nat.log2 num ≤ num := Nat.log2_self_le hnum
    have hceil : den < 2 ^ (Nat.log2 den + 1) := Nat.lt_log2_self
    have hpower : 2 ^ Nat.log2 num < 2 ^ (k + (Nat.log2 den + 1)) := by
      rw [Nat.pow_add]
      calc 2 ^ Nat.log2 num ≤ num := hfloor
        _ < 2 ^ k * den := h
        _ ≤ 2 ^ k * 2 ^ (Nat.log2 den + 1) := Nat.mul_le_mul_left _ hceil.le
    have hexponents := (Nat.pow_lt_pow_iff_right (by decide)).mp hpower
    omega

/-- A quotient below a power of two is rounded to this power at most. -/
theorem roundRatio_below {format : BinaryFormat} {negative : Bool} {num den k digits : Nat}
    (hmin : format.minExponent ≤ k) (h : num < 2 ^ k * den) (hdigits : 2 ^ k < 10 ^ digits) :
    (roundRatio format negative num den).Below digits := by
  rw [roundRatio]
  split
  · rw [FloatValue.Below, Nat.zero_mul]
    exact Nat.mul_pos (Nat.pow_pos (by decide)) (Nat.two_pow_pos _)
  · rename_i hnum
    have hlog := floorLog2_lt hnum h
    dsimp only [scaleRatio]
    have hexponent : max format.minExponent (floorLog2 num den - (format.precision - 1)) ≤ k := by
      omega
    generalize max format.minExponent (floorLog2 num den - (format.precision - 1)) = exponent at *
    split
    · trivial
    · rw [FloatValue.Below]
      have hpower : 2 ^ (k + (-exponent).toNat - exponent.toNat) * 2 ^ exponent.toNat =
          2 ^ k * 2 ^ (-exponent).toNat := by
        rw [← Nat.pow_add, ← Nat.pow_add]
        congr 1
        omega
      have hmantissa : roundHalfEven (num * 2 ^ (-exponent).toNat) (den * 2 ^ exponent.toNat) ≤
          2 ^ (k + (-exponent).toNat - exponent.toNat) := by
        apply roundHalfEven_le
        calc num * 2 ^ (-exponent).toNat < 2 ^ k * den * 2 ^ (-exponent).toNat :=
              Nat.mul_lt_mul_of_pos_right h (Nat.two_pow_pos _)
          _ = 2 ^ (k + (-exponent).toNat - exponent.toNat) * (den * 2 ^ exponent.toNat) := by
              rw [Nat.mul_right_comm, ← hpower, Nat.mul_assoc, Nat.mul_comm (2 ^ _) den]
      calc _ ≤ 2 ^ (k + (-exponent).toNat - exponent.toNat) * 2 ^ exponent.toNat :=
            Nat.mul_le_mul_right _ hmantissa
        _ = 2 ^ k * 2 ^ (-exponent).toNat := hpower
        _ < 10 ^ digits * 2 ^ (-exponent).toNat :=
            Nat.mul_lt_mul_of_pos_right hdigits (Nat.two_pow_pos _)

end AirspyhfWsprd.Library
