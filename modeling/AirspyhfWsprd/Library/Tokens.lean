import AirspyhfWsprd.Library.PrintedText

/-!
The functions of `<string.h>` and `<stdlib.h>` that split a text into words and read a
number from one.
-/

namespace AirspyhfWsprd.Library

/-- How many characters stand before the first one of the set. -/
def strcspn (text reject : CString) : Nat := (text.takeWhile (· ∉ reject)).length

/-- A call of `strtok`: the token, and the text that the next call goes on with. -/
def nextToken (delimiters text : CString) : Option (CString × CString) :=
  let start := text.dropWhile (· ∈ delimiters)
  let token := start.takeWhile (· ∉ delimiters)
  if start = [] then none else some (token, start.drop (token.length + 1))

/-- `atoi`, of a number in the range of an `int` -/
def atoi (text : CString) : Int :=
  match scanDecimal text with
  | none => 0
  | some (negative, magnitude, _) => if negative then -(magnitude : Int) else magnitude

/-- Behind a word that has no character of the set the search goes on. -/
theorem strcspn_append {word reject : CString} (h : ∀ c ∈ word, c ∉ reject) (rest : CString) :
    strcspn (word ++ rest) reject = word.length + strcspn rest reject := by
  rw [strcspn, strcspn, List.takeWhile_append_of_pos (by simpa using h), List.length_append]

theorem strcspn_cons {c : UInt8} {reject : CString} (h : c ∈ reject) (rest : CString) :
    strcspn (c :: rest) reject = 0 := by
  rw [strcspn, List.takeWhile_cons_of_neg (by simpa using h), List.length_nil]

theorem strcspn_none {text reject : CString} (h : ∀ c ∈ text, c ∉ reject) :
    strcspn text reject = text.length := by
  have happend := strcspn_append h []
  rwa [List.append_nil] at happend

/-- A character of the set that is in the text ends the span before the end of the text. -/
theorem strcspn_lt {text reject : CString} {c : UInt8} (hmem : c ∈ text) (hreject : c ∈ reject) :
    strcspn text reject < text.length := by
  induction text with
  | nil => exact absurd hmem List.not_mem_nil
  | cons first text ih =>
      by_cases hfirst : first ∈ reject
      · rw [strcspn_cons hfirst]
        exact Nat.succ_pos _
      · have hrest : c ∈ text := by
          obtain rfl | hrest := List.mem_cons.mp hmem
          · exact absurd hreject hfirst
          · exact hrest
        have happend : strcspn ([first] ++ text) reject = 1 + strcspn text reject :=
          strcspn_append (by simpa using hfirst) text
        have hlt := ih hrest
        rw [List.singleton_append] at happend
        rw [happend, List.length_cons]
        omega

/-- A word between delimiters is the next token. -/
theorem nextToken_word {delimiters front word : CString} {c : UInt8}
    (hfront : ∀ c ∈ front, c ∈ delimiters) (hne : word ≠ []) (hword : ∀ c ∈ word, c ∉ delimiters)
    (hc : c ∈ delimiters) (rest : CString) :
    nextToken delimiters (front ++ word ++ c :: rest) = some (word, rest) := by
  obtain ⟨first, tail, rfl⟩ := List.exists_cons_of_ne_nil hne
  have hstart : (front ++ first :: tail ++ c :: rest).dropWhile (· ∈ delimiters) =
      first :: tail ++ c :: rest := by
    rw [List.append_assoc, List.dropWhile_append_of_pos (by simpa using hfront), List.cons_append,
      List.dropWhile_cons_of_neg (by simpa using hword first List.mem_cons_self)]
  have htoken : (first :: tail ++ c :: rest).takeWhile (· ∉ delimiters) = first :: tail := by
    rw [List.takeWhile_append_of_pos (by simpa using hword),
      List.takeWhile_cons_of_neg (by simpa using hc), List.append_nil]
  simp only [nextToken, hstart, htoken]
  rw [if_neg (by simp), List.drop_append, List.drop_of_length_le (Nat.le_succ _),
    Nat.add_sub_cancel_left]
  rfl

/-- So is a word at the end of the text. -/
theorem nextToken_last {delimiters front word : CString}
    (hfront : ∀ c ∈ front, c ∈ delimiters) (hne : word ≠ []) (hword : ∀ c ∈ word, c ∉ delimiters) :
    nextToken delimiters (front ++ word) = some (word, []) := by
  obtain ⟨first, tail, rfl⟩ := List.exists_cons_of_ne_nil hne
  have hstart : (front ++ first :: tail).dropWhile (· ∈ delimiters) = first :: tail := by
    rw [List.dropWhile_append_of_pos (by simpa using hfront),
      List.dropWhile_cons_of_neg (by simpa using hword first List.mem_cons_self)]
  have htoken : (first :: tail).takeWhile (· ∉ delimiters) = first :: tail := by
    have hall : (first :: tail ++ []).takeWhile (· ∉ delimiters) =
        first :: tail ++ [].takeWhile (· ∉ delimiters) :=
      List.takeWhile_append_of_pos (by simpa using hword)
    rwa [List.append_nil, List.takeWhile_nil, List.append_nil] at hall
  simp only [nextToken, hstart, htoken]
  rw [if_neg (by simp), List.drop_of_length_le (Nat.le_succ _)]

theorem atoi_decimal (n : Nat) : atoi (decimal n) = n := by
  have hscan : scanDecimal (decimal n) = some (false, n, []) := by
    have hsigned := scanDecimal_signed false n endsWord_nil
    rwa [List.append_nil] at hsigned
  simp only [atoi, hscan]
  exact if_neg Bool.false_ne_true

end AirspyhfWsprd.Library
