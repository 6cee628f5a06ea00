import Mathlib.Data.List.Sort

/-!
Selecting the best of the candidates again and again. What has been selected is the
head of the sorted list of all candidates.
-/

namespace AirspyhfWsprd.Library

variable {α : Type*} {le : α → α → Bool} {candidates selected : List α}

/-- The selection holds the best of the candidates, best first. -/
structure BestFirst (le : α → α → Bool) (candidates selected : List α) : Prop where
  distinct : selected.Nodup
  chosen : ∀ x ∈ selected, x ∈ candidates
  ordered : selected.Pairwise (le · ·)
  before : ∀ x ∈ selected, ∀ y ∈ candidates, y ∉ selected → le x y

theorem bestFirst_nil (le : α → α → Bool) (candidates : List α) : BestFirst le candidates [] :=
  ⟨List.nodup_nil, nofun, List.Pairwise.nil, nofun⟩

/-- The best of the candidates that are left may be appended to a selection, and the selection
is then still a head of the ranking. -/
theorem BestFirst.add {best : α} (h : BestFirst le candidates selected)
    (hbest : best ∈ candidates) (hnew : best ∉ selected)
    (hrest : ∀ y ∈ candidates, y ∉ selected → le best y) :
    BestFirst le candidates (selected ++ [best]) := by
  constructor
  · apply h.distinct.append (List.nodup_singleton best)
    rwa [List.disjoint_singleton]
  · intro x hx
    rcases List.mem_append.mp hx with hold | hlast
    · exact h.chosen x hold
    · exact List.mem_singleton.mp hlast ▸ hbest
  · rw [List.pairwise_append]
    refine ⟨h.ordered, List.pairwise_singleton _ best, fun x hx y hy => ?_⟩
    rw [List.mem_singleton.mp hy]
    exact h.before x hx best hbest hnew
  · intro x hx y hy hother
    have hremaining : y ∉ selected := fun hmem => hother (List.mem_append_left _ hmem)
    rcases List.mem_append.mp hx with hold | hlast
    · exact h.before x hold y hy hremaining
    · exact List.mem_singleton.mp hlast ▸ hrest y hy hremaining

section Sorting

variable (htrans : ∀ a b c, le a b → le b c → le a c) (htotal : ∀ a b, le a b || le b a)
  (hanti : ∀ a b, le a b → le b a → a = b)

include htrans htotal hanti

/-- The selection and the rest in order are all the candidates in order. -/
theorem BestFirst.eq_take [DecidableEq α] (h : BestFirst le candidates selected)
    (hcandidates : candidates.Nodup) :
    selected = (candidates.mergeSort le).take selected.length := by
  let rest := (candidates.filter (· ∉ selected)).mergeSort le
  have hrest {y : α} : y ∈ rest ↔ y ∈ candidates ∧ y ∉ selected := by
    rw [List.mem_mergeSort, List.mem_filter, decide_eq_true_iff]
  have hnodup : (selected ++ rest).Nodup := by
    apply h.distinct.append
    · exact (List.mergeSort_perm _ le).nodup_iff.mpr (hcandidates.filter _)
    · exact fun y hy hmem => (hrest.mp hmem).2 hy
  have hperm : List.Perm (selected ++ rest) (candidates.mergeSort le) := by
    rw [List.perm_ext_iff_of_nodup hnodup
      ((List.mergeSort_perm candidates le).nodup_iff.mpr hcandidates)]
    intro y
    rw [List.mem_append, hrest, List.mem_mergeSort]
    constructor
    · rintro (hy | ⟨hy, -⟩)
      · exact h.chosen y hy
      · exact hy
    · intro hy
      rcases Decidable.em (y ∈ selected) with hsel | hsel
      · exact Or.inl hsel
      · exact Or.inr ⟨hy, hsel⟩
  have hsorted : (selected ++ rest).Pairwise (le · ·) := by
    rw [List.pairwise_append]
    refine ⟨h.ordered, List.pairwise_mergeSort htrans htotal _, fun x hx y hy => ?_⟩
    exact h.before x hx y (hrest.mp hy).1 (hrest.mp hy).2
  have heq : selected ++ rest = candidates.mergeSort le :=
    hperm.eq_of_pairwise (fun a b _ _ => hanti a b) hsorted
      (List.pairwise_mergeSort htrans htotal _)
  rw [← heq, List.take_left']
  rfl

/-- With no candidate left out the selection is as long as the list of the candidates. -/
theorem BestFirst.eq_mergeSort [DecidableEq α] (h : BestFirst le candidates selected)
    (hcandidates : candidates.Nodup) (hall : ∀ y ∈ candidates, y ∈ selected) :
    selected = candidates.mergeSort le := by
  have hlength : selected.length = (candidates.mergeSort le).length := by
    have hperm : List.Perm selected candidates :=
      (List.perm_ext_iff_of_nodup h.distinct hcandidates).mpr fun y => ⟨h.chosen y, hall y⟩
    rw [List.length_mergeSort, hperm.length_eq]
  have htake := h.eq_take htrans htotal hanti hcandidates
  rwa [hlength, List.take_length] at htake

end Sorting

end AirspyhfWsprd.Library
