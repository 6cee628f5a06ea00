import Mathlib.Data.UInt
import Mathlib.Tactic.Common

/-!
C character strings and the `<ctype.h>` classes of the "C" locale. A string is
the list of its bytes before the terminating NUL; a `char` array that may hold
bytes behind a NUL is a byte list too, and `cstr` is the string in it.
-/

namespace AirspyhfWsprd.Library

abbrev CString := List UInt8

/-- The bytes of a string literal. -/
def bytes (text : String) : CString := text.toList.map Char.toUInt8

/-- The string a `char` array holds: its bytes before the first NUL. -/
def cstr (buffer : List UInt8) : CString := buffer.takeWhile (· != 0)

def isdigit (c : UInt8) : Bool := '0'.toUInt8 ≤ c && c ≤ '9'.toUInt8

def isupper (c : UInt8) : Bool := 'A'.toUInt8 ≤ c && c ≤ 'Z'.toUInt8

def islower (c : UInt8) : Bool := 'a'.toUInt8 ≤ c && c ≤ 'z'.toUInt8

def isalpha (c : UInt8) : Bool := isupper c || islower c

def isalnum (c : UInt8) : Bool := isalpha c || isdigit c

/-- Space, tab, newline, vertical tab, form feed and carriage return. -/
def isspace (c : UInt8) : Bool := c == 32 || (9 ≤ c && c ≤ 13)

def toupper (c : UInt8) : UInt8 := if islower c then c - 32 else c

def tolower (c : UInt8) : UInt8 := if isupper c then c + 32 else c

/-- The pieces that calls of `strtok_r` with one delimiter give. -/
def strtok (delimiter : UInt8) (text : CString) : List CString :=
  (text.splitOn delimiter).filter fun piece => !piece.isEmpty

/-- The pieces that a loop over `strchr` or `memchr` of a separator visits: each ends at
a separator or at the end of the text, and nothing is visited behind a last separator. -/
def separated (separator : UInt8) : CString → List CString
  | [] => []
  | c :: rest =>
      if c = separator then [] :: separated separator rest
      else
        match separated separator rest with
        | [] => [[c]]
        | piece :: pieces => (c :: piece) :: pieces

/-- `strstr`: the text from the first occurrence of the key on. -/
def strstr (key : CString) : CString → Option CString
  | [] => if key = [] then some [] else none
  | c :: rest => if key <+: c :: rest then some (c :: rest) else strstr key rest

/-- `snprintf(buffer, size, "%s", text)` -/
def copyText (size : Nat) (text : CString) : CString := text.take (size - 1)

/-- `snprintf(buffer, size, "%s", text)` into a buffer of at least this size: what
stands behind the terminator stays. -/
def printInto (buffer : List UInt8) (size : Nat) (text : CString) : List UInt8 :=
  copyText size text ++ 0 :: buffer.drop ((copyText size text).length + 1)

/-- A decidable property of bytes holds when it holds of all 256 of them. -/
theorem forall_byte {p : UInt8 → Prop} (h : ∀ n < 256, p (UInt8.ofNat n)) (c : UInt8) : p c := by
  have hc := h c.toNat c.toNat_lt
  rwa [UInt8.ofNat_toNat] at hc

theorem toupper_toupper : ∀ c, toupper (toupper c) = toupper c := forall_byte (by decide +kernel)

@[simp] theorem isalpha_toupper : ∀ c, isalpha (toupper c) = isalpha c :=
  forall_byte (by decide +kernel)

@[simp] theorem isdigit_toupper : ∀ c, isdigit (toupper c) = isdigit c :=
  forall_byte (by decide +kernel)

@[simp] theorem isalnum_toupper (c : UInt8) : isalnum (toupper c) = isalnum c := by
  simp only [isalnum, isalpha_toupper, isdigit_toupper]

theorem toupper_ne_zero : ∀ c, isalnum c = true → toupper c ≠ 0 :=
  forall_byte (by decide +kernel)

/-- The string in a buffer is what stands before the first NUL. -/
theorem cstr_append {text : CString} (h : ∀ c ∈ text, c ≠ 0) (rest : List UInt8) :
    cstr (text ++ 0 :: rest) = text := by
  rw [cstr, List.takeWhile_append_of_pos (fun c hc => bne_iff_ne.mpr (h c hc)),
    List.takeWhile_cons_of_neg (by decide), List.append_nil]

theorem cstr_ne_zero {buffer : List UInt8} : ∀ c ∈ cstr buffer, c ≠ 0 := by
  intro c hc
  exact bne_iff_ne.mp (List.all_eq_true.mp List.all_takeWhile c hc)

theorem cstr_printInto (buffer : List UInt8) (size : Nat) {text : CString}
    (h : ∀ c ∈ text, c ≠ 0) : cstr (printInto buffer size text) = copyText size text :=
  cstr_append (fun c hc => h c (List.mem_of_mem_take hc)) _

theorem separated_cons {separator : UInt8} {field : CString} (hfield : separator ∉ field)
    (rest : CString) :
    separated separator (field ++ separator :: rest) = field :: separated separator rest := by
  induction field with
  | nil => exact if_pos rfl
  | cons c field ih =>
      rw [List.mem_cons, not_or] at hfield
      rw [List.cons_append, separated, if_neg (Ne.symm hfield.1), ih hfield.2]

theorem separated_one {separator : UInt8} {field : CString} (hfield : separator ∉ field)
    (hne : field ≠ []) : separated separator field = [field] := by
  induction field with
  | nil => exact absurd rfl hne
  | cons c field ih =>
      rw [List.mem_cons, not_or] at hfield
      rw [separated, if_neg (Ne.symm hfield.1)]
      cases field with
      | nil => rfl
      | cons d field => rw [ih hfield.2 (List.cons_ne_nil _ _)]

/-- The first place where a character stands is behind what it does not occur in. -/
theorem idxOf?_behind {c : UInt8} {front : CString} (hfront : c ∉ front) (rest : CString) :
    (front ++ c :: rest).idxOf? c = some front.length := by
  have hnone : front.findIdx? (· == c) = none := List.idxOf?_eq_none_iff.mpr hfront
  rw [List.idxOf?, List.findIdx?_append, hnone]
  simp [List.findIdx?_cons]

/-- The first place where the key stands is where the search ends. -/
theorem strstr_first {key text : CString} (htext : key <+: text) {front : CString}
    (hfirst : ∀ index < front.length, ¬ key <+: (front ++ text).drop index) :
    strstr key (front ++ text) = some text := by
  induction front with
  | nil =>
      cases text with
      | nil => rw [List.prefix_nil.mp htext]; rfl
      | cons c rest => exact if_pos htext
  | cons c front ih =>
      have hhere : ¬ key <+: c :: (front ++ text) := hfirst 0 (Nat.zero_lt_succ _)
      rw [List.cons_append, strstr, if_neg hhere]
      exact ih fun index hindex => hfirst (index + 1) (Nat.succ_lt_succ hindex)

end AirspyhfWsprd.Library
