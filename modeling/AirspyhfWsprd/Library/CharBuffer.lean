import AirspyhfWsprd.Library.CText
import Mathlib.Data.List.DropRight
import Mathlib.Data.List.GetD

/-!
Strings that are cut in place. A `char` array is a list of bytes, a pointer into it an index;
NULs written into the array end the strings in front of them. A field of the text that the
array held at first is so made a string of its own, and the text behind it is untouched.
-/

namespace AirspyhfWsprd.Library

/-- The string that begins at an index. -/
def stringAt (buffer : List UInt8) (index : Nat) : CString := cstr (buffer.drop index)

/-- `strchr(&buffer[index], c)` -/
def strchr (buffer : List UInt8) (index : Nat) (c : UInt8) : Option Nat :=
  ((stringAt buffer index).idxOf? c).map (index + ·)

/-- `if (pointer != NULL) *pointer = '\0';` -/
def endAt (buffer : List UInt8) : Option Nat → List UInt8
  | none => buffer
  | some index => buffer.set index 0

/-- `while (isspace(buffer[index])) index++;` -/
def pastSpace (buffer : List UInt8) (index : Nat) : Nat :=
  index + ((buffer.drop index).takeWhile isspace).length

/-- `while (end > index && isspace(buffer[end - 1])) buffer[--end] = '\0';` -/
def cutSpace (buffer : List UInt8) (index : Nat) : (last : Nat) → List UInt8
  | 0 => buffer
  | last + 1 =>
      if index < last + 1 ∧ isspace (buffer.getD last 0) then
        cutSpace (buffer.set last 0) index last
      else buffer

theorem length_endAt (buffer : List UInt8) (pointer : Option Nat) :
    (endAt buffer pointer).length = buffer.length := by
  cases pointer with
  | none => rfl
  | some index => exact List.length_set

theorem length_cutSpace (buffer : List UInt8) (index last : Nat) :
    (cutSpace buffer index last).length = buffer.length := by
  induction last generalizing buffer with
  | zero => rfl
  | succ last ih =>
      rw [cutSpace]
      split
      · rw [ih, List.length_set]
      · rfl

/-- A character that is found stands in the array, at the index or behind it. -/
theorem strchr_bounds {buffer : List UInt8} {index found : Nat} {c : UInt8}
    (h : strchr buffer index c = some found) : index ≤ found ∧ found < buffer.length := by
  obtain ⟨offset, hoffset, rfl⟩ := Option.map_eq_some_iff.mp h
  obtain ⟨hlt, -⟩ := List.idxOf?_eq_some_iff.mp hoffset
  have hstring : (stringAt buffer index).length ≤ buffer.length - index := by
    rw [← List.length_drop]
    exact (List.takeWhile_prefix _).length_le
  omega

section Text

variable {front text behind : List UInt8}

theorem stringAt_text (htext : ∀ c ∈ text, c ≠ 0) :
    stringAt (front ++ (text ++ 0 :: behind)) front.length = text := by
  rw [stringAt, List.drop_left]
  exact cstr_append htext behind

theorem strchr_text (htext : ∀ c ∈ text, c ≠ 0) (c : UInt8) :
    strchr (front ++ (text ++ 0 :: behind)) front.length c =
      (text.idxOf? c).map (front.length + ·) := by
  rw [strchr, stringAt_text htext]

theorem pastSpace_text :
    pastSpace (front ++ (text ++ 0 :: behind)) front.length =
      (front ++ text.takeWhile isspace).length := by
  have htake : (text ++ 0 :: behind).takeWhile isspace = text.takeWhile isspace := by
    induction text with
    | nil => rfl
    | cons c text ih =>
        rw [List.cons_append, List.takeWhile_cons, List.takeWhile_cons, ih]
  rw [pastSpace, List.drop_left, htake, List.length_append]

/-- The white space at the end of a text gives way to NULs. -/
theorem cutSpace_text (front text behind : List UInt8) :
    ∃ gap, cutSpace (front ++ (text ++ 0 :: behind)) front.length (front.length + text.length) =
        front ++ (text.rdropWhile isspace ++ 0 :: (gap ++ behind)) ∧
      (text.rdropWhile isspace).length + gap.length = text.length := by
  induction text using List.reverseRecOn generalizing behind with
  | nil =>
      refine ⟨[], ?_, rfl⟩
      cases hlength : front.length with
      | zero => rfl
      | succ last =>
          rw [List.length_nil, Nat.add_zero, cutSpace, if_neg]
          · rfl
          · exact fun h => Nat.lt_irrefl _ h.1
  | append_singleton text c ih =>
      have hbuffer : front ++ (text ++ [c] ++ 0 :: behind) =
          (front ++ text) ++ c :: (0 :: behind) := by simp
      have hlast : ((front ++ text) ++ c :: (0 :: behind)).getD (front.length + text.length) 0 =
          c := by
        rw [← List.length_append, List.getD_append_right _ _ _ _ (Nat.le_refl _), Nat.sub_self,
          List.getD_cons_zero]
      rw [List.length_append, List.length_singleton, ← Nat.add_assoc, cutSpace, hbuffer, hlast]
      by_cases hspace : isspace c = true
      · obtain ⟨gap, hcut, hlength⟩ := ih (0 :: behind)
        have hset : ((front ++ text) ++ c :: (0 :: behind)).set (front.length + text.length) 0 =
            front ++ (text ++ 0 :: (0 :: behind)) := by
          rw [← List.length_append, List.set_append_right _ _ (Nat.le_refl _), Nat.sub_self,
            List.set_cons_zero, List.append_assoc]
        rw [if_pos ⟨by omega, hspace⟩, hset, hcut, List.rdropWhile_concat_pos _ _ _ hspace]
        refine ⟨gap ++ [0], ?_, ?_⟩
        · rw [List.append_assoc, List.singleton_append]
        · rw [List.length_append, List.length_singleton]
          omega
      · rw [if_neg fun h => hspace h.2, List.rdropWhile_concat_neg _ _ _ hspace]
        exact ⟨[], by simp, by simp⟩

end Text

end AirspyhfWsprd.Library
