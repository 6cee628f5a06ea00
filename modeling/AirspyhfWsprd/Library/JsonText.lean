import AirspyhfWsprd.Library.CText
import Mathlib.Tactic.Linarith

/-!
JSON text as the program prints it: strings that need no escapes, arrays of strings on one
line, and an object with one member on a line. A reader of such arrays gives back what was
printed.
-/

namespace AirspyhfWsprd.Library

def jsonString (text : CString) : CString := bytes "\"" ++ text ++ bytes "\""

def jsonBool (value : Bool) : CString := if value then bytes "true" else bytes "false"

/-- An array of strings, with a comma and a blank between two of them. -/
def jsonStrings (items : List CString) : CString :=
  bytes "[" ++ (bytes ", ").intercalate (items.map jsonString) ++ bytes "]"

/-- A line of an object, without the comma. -/
def jsonMember (member : CString × CString) : CString :=
  bytes "  \"" ++ member.1 ++ bytes "\": " ++ member.2

/-- An object with its members indented, and a newline behind it. -/
def jsonObject (members : List (CString × CString)) : CString :=
  bytes "\x7b\n" ++ (bytes ",\n").intercalate (members.map jsonMember) ++ bytes "\n\x7d\n"

/-- The blanks of JSON: space, tab, newline and carriage return. -/
def isJsonSpace (c : UInt8) : Bool := c == 32 || c == 9 || c == 10 || c == 13

/-- A string without escapes behind its opening quote, and what follows its closing one. -/
def readString : CString → Option (CString × CString)
  | [] => none
  | c :: rest =>
      if c = '"'.toUInt8 then some ([], rest)
      else if c = '\\'.toUInt8 then none
      else (readString rest).map fun (text, rest) => (c :: text, rest)

/-- What follows this character, with blanks in front of it. -/
def expect (symbol : UInt8) (text : CString) : Option CString :=
  match text.dropWhile isJsonSpace with
  | [] => none
  | c :: rest => if c = symbol then some rest else none

/-- The strings of an array behind its opening bracket, one at least and nothing behind the
closing one. -/
def readItems : Nat → CString → Option (List CString)
  | 0, _ => none
  | fuel + 1, text => do
      let rest ← expect '"'.toUInt8 text
      let (item, rest) ← readString rest
      match expect ','.toUInt8 rest with
      | some rest => (readItems fuel rest).map (item :: ·)
      | none => if expect ']'.toUInt8 rest = some [] then some [item] else none

/-- An array of strings. -/
def readStrings (text : CString) : Option (List CString) := do
  let rest ← expect '['.toUInt8 text
  if expect ']'.toUInt8 rest = some [] then some [] else readItems rest.length rest

/-- A text that needs no escapes. -/
def Plain (text : CString) : Prop := ∀ c ∈ text, c ≠ '"'.toUInt8 ∧ c ≠ '\\'.toUInt8

theorem readString_plain {text : CString} (h : Plain text) (rest : CString) :
    readString (text ++ '"'.toUInt8 :: rest) = some (text, rest) := by
  induction text with
  | nil => exact if_pos rfl
  | cons c text ih =>
      obtain ⟨hquote, hescape⟩ := h c List.mem_cons_self
      have hrest := ih fun d hd => h d (List.mem_cons_of_mem c hd)
      rw [List.cons_append, readString, if_neg hquote, if_neg hescape, hrest]
      rfl

theorem expect_self {symbol : UInt8} (h : isJsonSpace symbol = false) (rest : CString) :
    expect symbol (symbol :: rest) = some rest := by
  rw [expect, List.dropWhile_cons_of_neg (by rw [h]; exact Bool.false_ne_true)]
  exact if_pos rfl

theorem expect_other {symbol c : UInt8} (h : isJsonSpace c = false) (hne : c ≠ symbol)
    (rest : CString) : expect symbol (c :: rest) = none := by
  rw [expect, List.dropWhile_cons_of_neg (by rw [h]; exact Bool.false_ne_true)]
  exact if_neg hne

theorem expect_space (symbol : UInt8) (rest : CString) :
    expect symbol (' '.toUInt8 :: rest) = expect symbol rest := rfl

theorem jsonString_append (text rest : CString) :
    jsonString text ++ rest = '"'.toUInt8 :: (text ++ '"'.toUInt8 :: rest) := by
  rw [jsonString, List.append_assoc, List.append_assoc]
  rfl

/-- One string, and what follows it. -/
theorem readItems_step {item rest : CString} (h : Plain item) (fuel : Nat) :
    readItems (fuel + 1) (jsonString item ++ rest) =
      match expect ','.toUInt8 rest with
      | some rest => (readItems fuel rest).map (item :: ·)
      | none => if expect ']'.toUInt8 rest = some [] then some [item] else none := by
  rw [jsonString_append, readItems, expect_self (by decide), Option.bind_eq_bind,
    Option.bind_some, readString_plain h]
  rfl

theorem readItems_space (fuel : Nat) (rest : CString) :
    readItems fuel (' '.toUInt8 :: rest) = readItems fuel rest := by
  cases fuel with
  | zero => rfl
  | succ fuel => rw [readItems, readItems, expect_space]

/-- The reader gives back the items of a printed array. Induction on the items, with fuel for
each of them. -/
theorem readItems_printed {item : CString} {items : List CString}
    (h : ∀ text ∈ item :: items, Plain text) {fuel : Nat} (hfuel : items.length < fuel) :
    readItems fuel ((bytes ", ").intercalate ((item :: items).map jsonString) ++ bytes "]") =
      some (item :: items) := by
  induction items generalizing item fuel with
  | nil =>
      obtain ⟨fuel, rfl⟩ := Nat.exists_eq_add_of_le' (Nat.zero_lt_of_lt hfuel)
      rw [List.map_cons, List.map_nil, List.intercalate_singleton,
        readItems_step (h item List.mem_cons_self)]
      rfl
  | cons next items ih =>
      obtain ⟨fuel, rfl⟩ := Nat.exists_eq_add_of_le' (Nat.zero_lt_of_lt hfuel)
      have hrest := ih (fun text htext => h text (List.mem_cons_of_mem item htext))
        (Nat.lt_of_succ_lt_succ hfuel)
      have hcomma (rest : CString) :
          expect ','.toUInt8 (bytes ", " ++ rest) = some (' '.toUInt8 :: rest) :=
        expect_self (by decide) _
      rw [List.map_cons] at hrest ⊢
      rw [List.map_cons, List.intercalate_cons_cons, List.append_assoc, List.append_assoc,
        readItems_step (h item List.mem_cons_self), hcomma]
      dsimp only
      rw [readItems_space, hrest]
      rfl

/-- A printed list has at least one byte for each item, so the length of the text is fuel
enough for its reader. -/
theorem length_le_intercalate (separator : CString) (items : List CString) :
    items.length ≤ (separator.intercalate (items.map jsonString)).length := by
  have hstring (text : CString) : 1 ≤ (jsonString text).length := by
    rw [jsonString, List.length_append, List.length_append]
    exact Nat.le_add_left _ _
  induction items with
  | nil => exact Nat.zero_le _
  | cons item items ih =>
      cases items with
      | nil =>
          rw [List.map_cons, List.map_nil, List.intercalate_singleton]
          exact hstring item
      | cons next items =>
          have hitem := hstring item
          rw [List.map_cons] at ih ⊢
          rw [List.map_cons, List.intercalate_cons_cons, List.length_append, List.length_append,
            List.length_cons]
          omega

/-- What is printed for texts without escapes is read as these texts. -/
theorem readStrings_jsonStrings {items : List CString} (h : ∀ text ∈ items, Plain text) :
    readStrings (jsonStrings items) = some items := by
  have hopen : expect '['.toUInt8 (jsonStrings items) =
      some ((bytes ", ").intercalate (items.map jsonString) ++ bytes "]") := by
    rw [jsonStrings, List.append_assoc]
    exact expect_self (by decide) _
  rw [readStrings, hopen, Option.bind_eq_bind, Option.bind_some]
  cases items with
  | nil => rfl
  | cons item items =>
      have hquote : (bytes ", ").intercalate ((item :: items).map jsonString) =
          '"'.toUInt8 :: (bytes ", ").intercalate
            ((item ++ bytes "\"") :: items.map jsonString) := List.intercalate_cons_cons_left
      have hclose : expect ']'.toUInt8 ((bytes ", ").intercalate ((item :: items).map jsonString) ++
          bytes "]") = none := by
        rw [hquote]
        exact expect_other (by decide) (by decide) _
      rw [hclose, if_neg (Option.some_ne_none _).symm]
      apply readItems_printed h
      have hlength := length_le_intercalate (bytes ", ") (item :: items)
      rw [List.length_append]
      rw [List.length_cons] at hlength
      omega

theorem jsonBool_length (value : Bool) : (jsonBool value).length ≤ 5 := by
  cases value
  · decide
  · decide

theorem jsonString_length (text : CString) : (jsonString text).length = text.length + 2 := by
  rw [jsonString, List.length_append, List.length_append, Nat.add_comm, ← Nat.add_assoc,
    Nat.add_comm]
  rfl

theorem intercalate_length (separator item : CString) (items : List CString) :
    (separator.intercalate (item :: items)).length =
      item.length + (items.map fun next => separator.length + next.length).sum := by
  induction items generalizing item with
  | nil => rw [List.intercalate_singleton, List.map_nil, List.sum_nil, Nat.add_zero]
  | cons next items ih =>
      rw [List.intercalate_cons_cons, List.length_append, List.length_append, ih, List.map_cons,
        List.sum_cons]
      omega

theorem jsonMember_length (member : CString × CString) :
    (jsonMember member).length = member.1.length + member.2.length + 6 := by
  have hopen : (bytes "  \"").length = 3 := rfl
  have hclose : (bytes "\": ").length = 3 := rfl
  rw [jsonMember, List.length_append, List.length_append, List.length_append, hopen, hclose]
  omega

/-- An object is no longer than its keys, the limits on its members' texts, and eight
characters for each of these. -/
theorem jsonObject_length {members : List (CString × CString)} {limits : List Nat}
    (h : List.Forall₂ (fun member limit => member.2.length ≤ limit) members limits) :
    (jsonObject members).length ≤
      (members.map (·.1.length)).sum + limits.sum + 8 * members.length + 5 := by
  have hseparator : (bytes ",\n").length = 2 := rfl
  have hopen : (bytes "\x7b\n").length = 2 := rfl
  have hclose : (bytes "\n\x7d\n").length = 3 := rfl
  have hsum : ((members.map jsonMember).map fun text => (bytes ",\n").length + text.length).sum ≤
      (members.map (·.1.length)).sum + limits.sum + 8 * members.length := by
    induction h with
    | nil => exact Nat.le_refl _
    | cons hlimit hrest ih =>
        simp only [List.map_cons, List.sum_cons, List.length_cons, jsonMember_length, hseparator]
          at ih ⊢
        omega
  rw [jsonObject, List.length_append, List.length_append, hopen, hclose]
  cases members with
  | nil =>
      rw [List.map_nil, List.intercalate_nil, List.length_nil]
      omega
  | cons member members =>
      rw [List.map_cons, List.map_cons, List.sum_cons] at hsum
      rw [List.map_cons, intercalate_length]
      omega

end AirspyhfWsprd.Library
