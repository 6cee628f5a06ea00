import Mathlib.Data.List.TakeWhile
import AirspyhfWsprd.Library.CText

/-!
The query of a URL as its reader takes it apart: behind the first question mark and in
front of a fragment, into pairs of a name and a percent-encoded value.
-/

namespace AirspyhfWsprd.Library

def percent : UInt8 := '%'.toUInt8

/-- The digit `0` to `F` of a nibble. -/
def upperHex (nibble : UInt8) : UInt8 := (bytes "0123456789ABCDEF").getD nibble.toNat 0

def hexValue (c : UInt8) : Option UInt8 :=
  if isdigit c then some (c - '0'.toUInt8)
  else if 'A'.toUInt8 ≤ c ∧ c ≤ 'F'.toUInt8 then some (c - 'A'.toUInt8 + 10)
  else if 'a'.toUInt8 ≤ c ∧ c ≤ 'f'.toUInt8 then some (c - 'a'.toUInt8 + 10)
  else none

/-- What stands for one byte. -/
def percentEncodeByte (keep : UInt8 → Bool) (c : UInt8) : CString :=
  if keep c then [c] else [percent, upperHex (c >>> 4), upperHex (c &&& 0x0f)]

def percentEncode (keep : UInt8 → Bool) (text : CString) : CString :=
  text.flatMap (percentEncodeByte keep)

/-- A percent sign that no two hexadecimal digits follow stands for itself. -/
def percentDecode : CString → CString
  | c :: high :: low :: rest =>
      match c == percent, hexValue high, hexValue low with
      | true, some high, some low => (high <<< 4 ||| low) :: percentDecode rest
      | _, _, _ => c :: percentDecode (high :: low :: rest)
  | text => text

/-- Kept characters, and triples of a percent sign and two hexadecimal digits. -/
inductive PercentEncoded (keep : UInt8 → Bool) : CString → Prop
  | nil : PercentEncoded keep []
  | kept {c : UInt8} {rest : CString} (hkeep : keep c = true) (hrest : PercentEncoded keep rest) :
      PercentEncoded keep (c :: rest)
  | triple {high low : UInt8} {rest : CString} (hhigh : (hexValue high).isSome)
      (hlow : (hexValue low).isSome) (hrest : PercentEncoded keep rest) :
      PercentEncoded keep (percent :: high :: low :: rest)

variable {keep : UInt8 → Bool}

@[simp] theorem percentEncode_nil : percentEncode keep [] = [] := rfl

@[simp] theorem percentEncode_cons (c : UInt8) (text : CString) :
    percentEncode keep (c :: text) = percentEncodeByte keep c ++ percentEncode keep text := rfl

/-- The two digits of a byte are read back. -/
theorem hexValue_digits : ∀ c : UInt8, hexValue (upperHex (c >>> 4)) = some (c >>> 4) ∧
    hexValue (upperHex (c &&& 0x0f)) = some (c &&& 0x0f) ∧
    (c >>> 4) <<< 4 ||| c &&& 0x0f = c := forall_byte (by decide +kernel)

theorem percentDecode_kept {c : UInt8} (hc : c ≠ percent) (text : CString) :
    percentDecode (c :: text) = c :: percentDecode text := by
  have hne : (c == percent) = false := beq_eq_false_iff_ne.mpr hc
  match text with
  | [] => rfl
  | [_] => rfl
  | high :: low :: rest => simp only [percentDecode, hne]

theorem percentDecode_triple (c : UInt8) (text : CString) :
    percentDecode (percent :: upperHex (c >>> 4) :: upperHex (c &&& 0x0f) :: text) =
      c :: percentDecode text := by
  obtain ⟨hhigh, hlow, hbyte⟩ := hexValue_digits c
  simp only [percentDecode, beq_self_eq_true, hhigh, hlow, hbyte]

/-- Decoding undoes the encoding of any text. The percent sign itself is always encoded, so an
encoded text has no other ones. -/
theorem percentDecode_percentEncode (hkeep : keep percent = false) (text : CString) :
    percentDecode (percentEncode keep text) = text := by
  induction text with
  | nil => rfl
  | cons c rest ih =>
      rw [percentEncode_cons, percentEncodeByte]
      split
      · rename_i hc
        have hne : c ≠ percent := by
          rintro rfl
          rw [hkeep] at hc
          cases hc
        rw [List.singleton_append, percentDecode_kept hne, ih]
      · simp only [List.cons_append, List.nil_append, percentDecode_triple, ih]

theorem percentEncode_encoded (keep : UInt8 → Bool) (text : CString) :
    PercentEncoded keep (percentEncode keep text) := by
  induction text with
  | nil => exact .nil
  | cons c rest ih =>
      rw [percentEncode_cons, percentEncodeByte]
      split
      · rename_i hc
        exact .kept hc ih
      · obtain ⟨hhigh, hlow, -⟩ := hexValue_digits c
        exact .triple (by rw [hhigh]; rfl) (by rw [hlow]; rfl) ih

theorem percentEncodeByte_length (keep : UInt8 → Bool) (c : UInt8) :
    (percentEncodeByte keep c).length = if keep c then 1 else 3 := by
  unfold percentEncodeByte
  split <;> rfl

theorem percentEncode_length (keep : UInt8 → Bool) (text : CString) :
    (percentEncode keep text).length ≤ 3 * text.length := by
  induction text with
  | nil => exact Nat.le_refl 0
  | cons c rest ih =>
      have hbyte : (percentEncodeByte keep c).length ≤ 3 := by
        rw [percentEncodeByte_length]
        split <;> decide
      simp only [percentEncode_cons, List.length_append, List.length_cons]
      omega

/-- A character that is not kept, no percent sign and no digit does not occur. -/
theorem PercentEncoded.not_mem {text : CString} (h : PercentEncoded keep text) {c : UInt8}
    (hkeep : keep c = false) (hpercent : c ≠ percent) (hhex : hexValue c = none) : c ∉ text := by
  have hdigit {d : UInt8} (hd : (hexValue d).isSome) : c ≠ d := by
    rintro rfl
    rw [hhex] at hd
    cases hd
  induction h with
  | nil => exact List.not_mem_nil
  | kept hc hrest ih =>
      apply List.not_mem_cons_of_ne_of_not_mem _ ih
      rintro rfl
      rw [hkeep] at hc
      cases hc
  | triple hhigh hlow hrest ih =>
      exact List.not_mem_cons_of_ne_of_not_mem hpercent
        (List.not_mem_cons_of_ne_of_not_mem (hdigit hhigh)
          (List.not_mem_cons_of_ne_of_not_mem (hdigit hlow) ih))

def questionMark : UInt8 := '?'.toUInt8

def ampersand : UInt8 := '&'.toUInt8

def equalsSign : UInt8 := '='.toUInt8

def numberSign : UInt8 := '#'.toUInt8

/-- The text behind the first question mark, up to a fragment. -/
def urlQuery (url : CString) : CString :=
  ((url.dropWhile (· != questionMark)).drop 1).takeWhile (· != numberSign)

/-- A name and a value without its percent-encoding; a part that is no such pair is left
out. -/
def queryPair (part : CString) : Option (CString × CString) :=
  match part.splitOn equalsSign with
  | [name, value] => some (name, percentDecode value)
  | _ => none

def queryPairs (query : CString) : List (CString × CString) :=
  (query.splitOn ampersand).filterMap queryPair

/-- The values of a name in the query of a URL. -/
def queryValues (url name : CString) : List CString :=
  ((queryPairs (urlQuery url)).filter (·.1 == name)).map (·.2)

/-- A text that can be a name or an encoded value. -/
def Quiet (text : CString) : Prop :=
  ampersand ∉ text ∧ equalsSign ∉ text ∧ numberSign ∉ text

instance (text : CString) : Decidable (Quiet text) :=
  inferInstanceAs (Decidable (_ ∧ _ ∧ _))

/-- `name=value` -/
def parameterText (parameter : CString × CString) : CString :=
  parameter.1 ++ equalsSign :: parameter.2

/-- The parameters with an ampersand between them. -/
def queryText (parameters : List (CString × CString)) : CString :=
  [ampersand].intercalate (parameters.map parameterText)

theorem queryPair_parameterText {name value : CString} (hname : equalsSign ∉ name)
    (hvalue : equalsSign ∉ value) :
    queryPair (parameterText (name, value)) = some (name, percentDecode value) := by
  have hjoin : parameterText (name, value) = [equalsSign].intercalate [name, value] := by
    simp [parameterText, List.intercalate]
  have hsplit := List.splitOn_intercalate equalsSign
    (List.forall_mem_cons.mpr ⟨hname, List.forall_mem_singleton.mpr hvalue⟩)
    (List.cons_ne_nil name [value])
  rw [queryPair, hjoin, hsplit]

theorem parameterText_quiet {parameter : CString × CString} (hname : Quiet parameter.1)
    (hvalue : Quiet parameter.2) :
    ampersand ∉ parameterText parameter ∧ numberSign ∉ parameterText parameter := by
  unfold parameterText
  simp only [List.mem_append, List.mem_cons, not_or]
  exact ⟨⟨hname.1, by decide, hvalue.1⟩, hname.2.2, by decide, hvalue.2.2⟩

theorem not_mem_intercalate {separator c : UInt8} (hne : c ≠ separator) {parts : List CString}
    (hparts : ∀ part ∈ parts, c ∉ part) : c ∉ [separator].intercalate parts := by
  induction parts with
  | nil => exact List.not_mem_nil
  | cons part rest ih =>
      obtain ⟨hpart, hrest⟩ := List.forall_mem_cons.mp hparts
      cases rest with
      | nil => rwa [List.intercalate_singleton]
      | cons next rest =>
          rw [List.intercalate_cons_cons, List.mem_append, List.mem_append, not_or, not_or]
          exact ⟨⟨hpart, mt List.mem_singleton.mp hne⟩, ih hrest⟩

/-- A query of quiet parameters is taken apart into them. -/
theorem queryPairs_queryText {parameters : List (CString × CString)} (hne : parameters ≠ [])
    (h : ∀ parameter ∈ parameters, Quiet parameter.1 ∧ Quiet parameter.2) :
    queryPairs (queryText parameters) =
      parameters.map fun parameter => (parameter.1, percentDecode parameter.2) := by
  have hampersand : ∀ part ∈ parameters.map parameterText, ampersand ∉ part := by
    intro part hpart
    obtain ⟨parameter, hparameter, rfl⟩ := List.mem_map.mp hpart
    exact (parameterText_quiet (h parameter hparameter).1 (h parameter hparameter).2).1
  have hsplit := List.splitOn_intercalate ampersand hampersand (mt List.map_eq_nil_iff.mp hne)
  unfold queryPairs queryText
  rw [hsplit, List.filterMap_map]
  apply List.filterMap_eq_map_iff_forall_eq_some.mpr
  intro parameter hparameter
  obtain ⟨hname, hvalue⟩ := h parameter hparameter
  exact queryPair_parameterText hname.2.1 hvalue.2.1

/-- The query behind an endpoint without one. -/
theorem urlQuery_queryText {endpoint : CString} (hendpoint : questionMark ∉ endpoint)
    {parameters : List (CString × CString)}
    (h : ∀ parameter ∈ parameters, Quiet parameter.1 ∧ Quiet parameter.2) :
    urlQuery (endpoint ++ questionMark :: queryText parameters) = queryText parameters := by
  have hquery : numberSign ∉ queryText parameters := by
    apply not_mem_intercalate (by decide)
    intro part hpart
    obtain ⟨parameter, hparameter, rfl⟩ := List.mem_map.mp hpart
    exact (parameterText_quiet (h parameter hparameter).1 (h parameter hparameter).2).2
  have hskip : ∀ c ∈ endpoint, (c != questionMark) = true := by
    intro c hc
    rw [bne_iff_ne]
    rintro rfl
    exact hendpoint hc
  unfold urlQuery
  rw [List.dropWhile_append_of_pos hskip, List.dropWhile_cons_of_neg (by decide), List.drop_one,
    List.tail_cons, List.takeWhile_eq_self_iff]
  intro c hc
  rw [bne_iff_ne]
  rintro rfl
  exact hquery hc

end AirspyhfWsprd.Library
