import Mathlib.Data.List.Chain
import AirspyhfWsprd.Library.CText

/-!
The validators of `station.c`. They write the normalized text into the caller's
buffer while they check, so a text that is refused half-way leaves what was
written before.
-/

namespace AirspyhfWsprd.Jt9

open Library

def slash : UInt8 := '/'.toUInt8

/-- The loop of `station_normalize_callsign` from an index on: the characters
before the rest of the text and what it has found and written. -/
def normalizeCallsignLoop (previous : Option UInt8) (index : Nat) (hasLetter hasDigit : Bool)
    (output : List UInt8) : CString → Bool × List UInt8
  | [] => (hasLetter && hasDigit, output.set index 0)
  | character :: rest =>
      if !(isalnum character || character == slash) ||
          (character == slash && previous == some slash) then (false, output)
      else
        normalizeCallsignLoop (some character) (index + 1) (hasLetter || isalpha character)
          (hasDigit || isdigit character) (output.set index (toupper character)) rest

/-- `station_normalize_callsign`: the value it returns and the output buffer. -/
def stationNormalizeCallsign (output : List UInt8) (outputSize : Nat) (input : CString) :
    Bool × List UInt8 :=
  let length := input.length
  if length < 3 || length > 12 || outputSize ≤ length || input.head? == some slash ||
      input.getLast? == some slash then (false, output)
  else normalizeCallsignLoop none 0 false false output input

/-- `station_normalize_grid`: the value it returns and the output buffer. The first four
characters are written before the last two are checked. -/
def stationNormalizeGrid (output : List UInt8) (outputSize : Nat) (input : CString) :
    Bool × List UInt8 :=
  let length := input.length
  let inRange (low high c : UInt8) := low ≤ c && c ≤ high
  if (length != 4 && length != 6) || outputSize ≤ length then (false, output)
  else
    match input with
    | c₀ :: c₁ :: c₂ :: c₃ :: subsquare =>
        let first := toupper c₀
        let second := toupper c₁
        if !inRange 'A'.toUInt8 'R'.toUInt8 first || !inRange 'A'.toUInt8 'R'.toUInt8 second ||
            !isdigit c₂ || !isdigit c₃ then (false, output)
        else
          let output := (((output.set 0 first).set 1 second).set 2 c₂).set 3 c₃
          match subsquare with
          | c₄ :: c₅ :: _ =>
              let fifth := tolower c₄
              let sixth := tolower c₅
              if !inRange 'a'.toUInt8 'x'.toUInt8 fifth ||
                  !inRange 'a'.toUInt8 'x'.toUInt8 sixth then (false, output)
              else (true, ((output.set 4 fifth).set 5 sixth).set length 0)
          | _ => (true, output.set length 0)
    | _ => (false, output)

/-- Three to twelve letters, digits and single inner slashes, with a letter and a
digit among them. -/
structure IsCallsign (text : CString) : Prop where
  length : 3 ≤ text.length ∧ text.length ≤ 12
  characters : ∀ c ∈ text, isalnum c = true ∨ c = slash
  inner : text.head? ≠ some slash ∧ text.getLast? ≠ some slash
  single : text.IsChain fun a b => ¬ (b = slash ∧ a = slash)
  letter : ∃ c ∈ text, isalpha c = true
  digit : ∃ c ∈ text, isdigit c = true

/-- The loop accepts a text of letters, digits and slashes without two slashes in a row, the
character before it included, when a letter and a digit are in it or were before it. -/
theorem normalizeCallsignLoop_accepts_iff (previous : Option UInt8) (index : Nat)
    (hasLetter hasDigit : Bool) (output : List UInt8) (text : CString) :
    (normalizeCallsignLoop previous index hasLetter hasDigit output text).1 = true ↔
      (∀ c ∈ text, isalnum c = true ∨ c = slash) ∧
        (previous.toList ++ text).IsChain (fun a b => ¬ (b = slash ∧ a = slash)) ∧
        (hasLetter = true ∨ ∃ c ∈ text, isalpha c = true) ∧
        (hasDigit = true ∨ ∃ c ∈ text, isdigit c = true) := by
  induction text generalizing previous index hasLetter hasDigit output with
  | nil => cases previous <;> simp [normalizeCallsignLoop]
  | cons character rest ih =>
      have hchain : (previous.toList ++ character :: rest).IsChain
          (fun a b => ¬ (b = slash ∧ a = slash)) ↔
            ¬ (character = slash ∧ previous = some slash) ∧
              (character :: rest).IsChain fun a b => ¬ (b = slash ∧ a = slash) := by
        cases previous with
        | none => simp
        | some before => simp [List.isChain_cons_cons]
      rw [normalizeCallsignLoop]
      split
      · rename_i hrefused
        simp only [Bool.or_eq_true, Bool.not_eq_true', Bool.or_eq_false_iff, beq_eq_false_iff_ne,
          Bool.and_eq_true, beq_iff_eq] at hrefused
        refine ⟨fun h => (nomatch h), fun ⟨hcharacters, hsingle, _⟩ => ?_⟩
        rcases hrefused with ⟨halnum, hslash⟩ | hdouble
        · rcases hcharacters character List.mem_cons_self with h | h
          · rw [halnum] at h
            cases h
          · exact absurd h hslash
        · exact absurd hdouble (hchain.mp hsingle).1
      · rename_i hkept
        simp only [Bool.or_eq_true, Bool.not_eq_true', Bool.or_eq_false_iff, beq_eq_false_iff_ne,
          Bool.and_eq_true, beq_iff_eq, not_or, not_and_or, Bool.not_eq_false, Decidable.not_not]
          at hkept
        rw [ih, hchain, Option.toList_some, List.singleton_append, List.forall_mem_cons,
          List.exists_mem_cons_iff, List.exists_mem_cons_iff, Bool.or_eq_true, Bool.or_eq_true,
          or_assoc, or_assoc]
        exact ⟨fun ⟨hall, hsingle, hfound⟩ =>
            ⟨⟨hkept.1, hall⟩, ⟨not_and_or.mpr hkept.2, hsingle⟩, hfound⟩,
          fun ⟨hall, hsingle, hfound⟩ => ⟨hall.2, hsingle.2, hfound⟩⟩

/-- The validator accepts exactly the callsigns the buffer has room for. -/
theorem stationNormalizeCallsign_accepts_iff {output : List UInt8} {outputSize : Nat}
    {input : CString} : (stationNormalizeCallsign output outputSize input).1 = true ↔
      IsCallsign input ∧ input.length < outputSize := by
  rw [stationNormalizeCallsign]
  split
  · rename_i hrefused
    simp only [Bool.or_eq_true, decide_eq_true_eq, beq_iff_eq] at hrefused
    refine ⟨fun h => (nomatch h), fun ⟨⟨hlength, _, hinner, _, _, _⟩, hroom⟩ => ?_⟩
    exact absurd hrefused (by
      simp only [hinner.1, hinner.2, or_false]
      omega)
  · rename_i hkept
    simp only [Bool.or_eq_true, decide_eq_true_eq, beq_iff_eq, not_or] at hkept
    obtain ⟨⟨⟨⟨hshort, hlong⟩, hroom⟩, hfirst⟩, hlast⟩ := hkept
    rw [normalizeCallsignLoop_accepts_iff]
    refine ⟨fun ⟨hall, hsingle, hletter, hdigit⟩ => ⟨⟨⟨by omega, by omega⟩, hall,
      ⟨hfirst, hlast⟩, hsingle, ?_, ?_⟩, by omega⟩, fun ⟨h, _⟩ => ⟨h.characters, h.single,
      Or.inr h.letter, Or.inr h.digit⟩⟩
    · simpa using hletter
    · simpa using hdigit

/-- A text that the loop accepts stands in the buffer in capitals, terminated, and the bytes
behind the terminator are those of before. -/
theorem normalizeCallsignLoop_output {previous : Option UInt8} {hasLetter hasDigit : Bool}
    (written : CString) {tail : List UInt8} {text : CString}
    (h : (normalizeCallsignLoop previous written.length hasLetter hasDigit (written ++ tail)
      text).1 = true) (hroom : text.length < tail.length) :
    (normalizeCallsignLoop previous written.length hasLetter hasDigit (written ++ tail) text).2 =
      written ++ text.map toupper ++ 0 :: tail.drop (text.length + 1) := by
  obtain ⟨old, tail, rfl⟩ := List.exists_cons_of_length_pos (Nat.zero_lt_of_lt hroom)
  have hset (c : UInt8) : (written ++ old :: tail).set written.length c =
      written ++ [c] ++ tail := by
    simp
  induction text generalizing previous hasLetter hasDigit written old tail with
  | nil =>
      rw [normalizeCallsignLoop, hset]
      simp
  | cons character rest ih =>
      rw [normalizeCallsignLoop] at h ⊢
      split at h
      · cases h
      rename_i hkept
      rw [List.length_cons, List.length_cons, Nat.add_lt_add_iff_right] at hroom
      obtain ⟨next, tail, rfl⟩ := List.exists_cons_of_length_pos (Nat.zero_lt_of_lt hroom)
      have hlength : (written ++ [toupper character]).length = written.length + 1 := by simp
      rw [hset, ← hlength] at h
      rw [if_neg hkept, hset, ← hlength, ih _ next tail h hroom fun c => by simp]
      simp

theorem normalizeCallsignLoop_length {previous : Option UInt8} {index : Nat}
    {hasLetter hasDigit : Bool} {output : List UInt8} {text : CString} :
    (normalizeCallsignLoop previous index hasLetter hasDigit output text).2.length =
      output.length := by
  induction text generalizing previous index hasLetter hasDigit output with
  | nil => exact List.length_set
  | cons character rest ih =>
      rw [normalizeCallsignLoop]
      split
      · rfl
      · rw [ih, List.length_set]

theorem stationNormalizeCallsign_length {output : List UInt8} {outputSize : Nat}
    {input : CString} :
    (stationNormalizeCallsign output outputSize input).2.length = output.length := by
  rw [stationNormalizeCallsign]
  split
  · rfl
  · exact normalizeCallsignLoop_length

theorem toupper_eq_slash : ∀ c, toupper c = slash ↔ c = slash := forall_byte (by decide +kernel)

theorem map_toupper_ne_slash {c : Option UInt8} (h : c ≠ some slash) :
    c.map toupper ≠ some slash := by
  intro heq
  obtain ⟨character, rfl, hc⟩ := Option.map_eq_some_iff.mp heq
  exact h (congrArg some ((toupper_eq_slash character).mp hc))

/-- The loop does not touch what stands before its index. -/
theorem normalizeCallsignLoop_head (previous : Option UInt8) (index : Nat)
    (hasLetter hasDigit : Bool) (output : List UInt8) (text : CString) :
    (normalizeCallsignLoop previous (index + 1) hasLetter hasDigit output text).2.head? =
      output.head? := by
  have hset (index : Nat) (c : UInt8) (output : List UInt8) :
      (output.set (index + 1) c).head? = output.head? := by
    cases output <;> rfl
  induction text generalizing previous index hasLetter hasDigit output with
  | nil => exact hset index 0 output
  | cons character rest ih =>
      rw [normalizeCallsignLoop]
      split
      · rfl
      · rw [ih, hset]

/-- The validator gets as far as storing the first character of the text. -/
def storesFirst : CString → Bool
  | [] => false
  | first :: rest =>
      2 ≤ rest.length && rest.length ≤ 11 && isalnum first &&
        (first :: rest).getLast? != some slash

theorem storesFirst_cons {first : UInt8} {rest : CString} : storesFirst (first :: rest) = true ↔
    2 ≤ rest.length ∧ rest.length ≤ 11 ∧ isalnum first = true ∧
      (first :: rest).getLast? ≠ some slash := by
  simp only [storesFirst, Bool.and_eq_true, decide_eq_true_eq, bne_iff_ne, and_assoc]

theorem storesFirst_length {input : CString} (h : storesFirst input = true) :
    input.length ≤ 12 := by
  cases input with
  | nil => exact Nat.zero_le _
  | cons first rest => exact Nat.succ_le_succ (storesFirst_cons.mp h).2.1

theorem IsCallsign.storesFirst {text : CString} (h : IsCallsign text) :
    storesFirst text = true := by
  obtain ⟨⟨hshort, hlong⟩, hcharacters, ⟨hfirst, hlast⟩, -, -, -⟩ := h
  obtain ⟨first, rest, rfl⟩ := List.exists_cons_of_length_pos (Nat.zero_lt_of_lt hshort)
  rw [List.length_cons] at hshort hlong
  have halnum : isalnum first = true :=
    (hcharacters first List.mem_cons_self).resolve_right fun heq => hfirst (congrArg some heq)
  exact storesFirst_cons.mpr ⟨by omega, by omega, halnum, hlast⟩

/-- No callsign stands in angle brackets. -/
theorem IsCallsign.less_not_mem {text : CString} (h : IsCallsign text) : '<'.toUInt8 ∉ text := by
  intro hmem
  rcases h.characters _ hmem with halnum | hslash
  · exact absurd halnum (by decide)
  · exact absurd hslash (by decide)

theorem IsCallsign.head?_ne_less {text : CString} (h : IsCallsign text) :
    text.head? ≠ some '<'.toUInt8 :=
  fun hhead => h.less_not_mem (List.mem_of_head? hhead)

/-- Normalizing makes capital letters; the result is a callsign again. -/
theorem IsCallsign.map_toupper {text : CString} (h : IsCallsign text) :
    IsCallsign (text.map toupper) where
  length := by
    rw [List.length_map]
    exact h.length
  characters := by
    intro c hc
    obtain ⟨character, hmem, rfl⟩ := List.mem_map.mp hc
    rw [isalnum_toupper, toupper_eq_slash]
    exact h.characters character hmem
  inner := by
    rw [List.head?_map, List.getLast?_map]
    exact ⟨map_toupper_ne_slash h.inner.1, map_toupper_ne_slash h.inner.2⟩
  single := by
    rw [List.isChain_map]
    simp only [toupper_eq_slash]
    exact h.single
  letter := by
    obtain ⟨c, hc, hletter⟩ := h.letter
    exact ⟨toupper c, List.mem_map_of_mem hc, (isalpha_toupper c).trans hletter⟩
  digit := by
    obtain ⟨c, hc, hdigit⟩ := h.digit
    exact ⟨toupper c, List.mem_map_of_mem hc, (isdigit_toupper c).trans hdigit⟩

theorem map_toupper_ne_zero {text : CString} (h : ∀ c ∈ text, isalnum c = true ∨ c = slash) :
    ∀ c ∈ text.map toupper, c ≠ 0 := by
  intro c hc
  obtain ⟨character, hmem, rfl⟩ := List.mem_map.mp hc
  rcases h character hmem with halnum | rfl
  · exact toupper_ne_zero character halnum
  · decide

/-- An accepted callsign is written in capitals, and the string in the caller's buffer is that
callsign and no more. -/
theorem stationNormalizeCallsign_output {output : List UInt8} {outputSize : Nat} {input : CString}
    (h : IsCallsign input) (hroom : input.length < outputSize)
    (hsize : output.length = outputSize) :
    cstr (stationNormalizeCallsign output outputSize input).2 = input.map toupper := by
  have haccepted : (stationNormalizeCallsign output outputSize input).1 = true :=
    stationNormalizeCallsign_accepts_iff.mpr ⟨h, hroom⟩
  rw [stationNormalizeCallsign] at haccepted ⊢
  split at haccepted
  · cases haccepted
  · rename_i hkept
    have hout := normalizeCallsignLoop_output [] haccepted (by rwa [hsize])
    rw [if_neg hkept]
    rw [List.length_nil, List.nil_append, List.nil_append] at hout
    rw [hout, cstr_append (map_toupper_ne_zero h.characters)]

/-- A text that gets as far as its first character leaves a string in the buffer,
accepted or not. -/
theorem stationNormalizeCallsign_stored {output : List UInt8} {outputSize : Nat} {input : CString}
    (hstores : storesFirst input = true) (hroom : input.length < outputSize)
    (hne : output ≠ []) : cstr (stationNormalizeCallsign output outputSize input).2 ≠ [] := by
  cases input with
  | nil => cases hstores
  | cons first rest =>
      obtain ⟨hshort, hlong, halnum, hlast⟩ := storesFirst_cons.mp hstores
      rw [List.length_cons] at hroom
      have hslash : first ≠ slash := by
        rintro rfl
        cases halnum
      obtain ⟨old, tail, rfl⟩ := List.exists_cons_of_ne_nil hne
      rw [stationNormalizeCallsign, if_neg (by
        simp only [Bool.or_eq_true, decide_eq_true_eq, beq_iff_eq, hlast, List.head?_cons,
          Option.some.injEq, hslash, or_false, List.length_cons]
        omega), normalizeCallsignLoop, if_neg (by simp [halnum])]
      have hhead := normalizeCallsignLoop_head (some first) 0 (false || isalpha first)
        (false || isdigit first) ((old :: tail).set 0 (toupper first)) rest
      obtain ⟨buffer, hbuffer⟩ := List.head?_eq_some_iff.mp hhead
      have hnonzero : (toupper first != 0) = true := bne_iff_ne.mpr (toupper_ne_zero first halnum)
      rw [hbuffer, cstr, List.takeWhile_cons, if_pos hnonzero]
      exact List.cons_ne_nil _ _

/-- A text that is refused for its length, its first character or a slash at its end leaves the
caller's buffer as it was. -/
theorem stationNormalizeCallsign_untouched {output : List UInt8} {outputSize : Nat}
    {input : CString} (hstores : storesFirst input = false) :
    (stationNormalizeCallsign output outputSize input).2 = output := by
  rw [stationNormalizeCallsign]
  split
  · rfl
  rename_i hkept
  simp only [Bool.or_eq_true, decide_eq_true_eq, beq_iff_eq, not_or] at hkept
  obtain ⟨⟨⟨⟨hshort, hlong⟩, -⟩, hslash⟩, hlast⟩ := hkept
  obtain ⟨first, rest, rfl⟩ := List.exists_cons_of_length_pos (l := input) (by omega)
  rw [List.length_cons] at hshort hlong
  have hrefused : isalnum first = false := by
    rw [← Bool.not_eq_true] at hstores ⊢
    exact fun halnum => hstores (storesFirst_cons.mpr ⟨by omega, by omega, halnum, hlast⟩)
  have hfirst : first ≠ slash := fun heq => hslash (congrArg some heq)
  rw [normalizeCallsignLoop, if_pos (by simp [hrefused, hfirst])]

end AirspyhfWsprd.Jt9
