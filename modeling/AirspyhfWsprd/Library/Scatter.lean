import Mathlib.Data.List.GetD
import Mathlib.Data.List.Nodup
import Mathlib.Data.List.Perm.Basic

/-!
Writing a list to the places that an order gives, and reading it from them. Where the
order has each place once, the two undo each other.
-/

namespace AirspyhfWsprd.Library

variable {α : Type*}

/-- The values at the places of the order -/
def gather (default : α) (order : List Nat) (values : List α) : List α :=
  order.map fun place => values.getD place default

/-- The values written to the places of the order, over what stood there -/
def scatter : (order : List Nat) → (values old : List α) → List α
  | place :: order, value :: values, old => scatter order values (old.set place value)
  | _, _, old => old

@[simp] theorem scatter_length (order : List Nat) (values old : List α) :
    (scatter order values old).length = old.length := by
  induction order generalizing values old with
  | nil => rfl
  | cons place order ih =>
      cases values with
      | nil => rfl
      | cons value values => simp only [scatter, ih, List.length_set]

/-- Values behind the end of the order are not written. -/
theorem scatter_take (order : List Nat) (values old : List α) :
    scatter order (values.take order.length) old = scatter order values old := by
  induction order generalizing values old with
  | nil => rfl
  | cons place order ih =>
      cases values with
      | nil => rfl
      | cons value values => simp only [List.length_cons, List.take_succ_cons, scatter, ih]

/-- A place that is not in the order keeps its value. -/
theorem scatter_getElem?_of_notMem {order : List Nat} {place : Nat} (h : place ∉ order)
    (values old : List α) : (scatter order values old)[place]? = old[place]? := by
  induction order generalizing values old with
  | nil => rfl
  | cons first order ih =>
      rw [List.mem_cons, not_or] at h
      cases values with
      | nil => rfl
      | cons value values =>
          simp only [scatter]
          rw [ih h.2, List.getElem?_set_ne (Ne.symm h.1)]

/-- Reading the places in the order in which they were written gives back the values. No place
is written twice, so none is overwritten later. -/
theorem gather_scatter (default : α) {order : List Nat} {values old : List α}
    (hnodup : order.Nodup) (hplaces : ∀ place ∈ order, place < old.length)
    (hlength : order.length = values.length) :
    gather default order (scatter order values old) = values := by
  induction order generalizing values old with
  | nil => exact (List.eq_nil_of_length_eq_zero hlength.symm).symm
  | cons place order ih =>
      cases values with
      | nil => exact absurd hlength (Nat.succ_ne_zero _)
      | cons value values =>
          obtain ⟨hfirst, hrest⟩ := List.nodup_cons.mp hnodup
          have hplace : (scatter order values (old.set place value))[place]? = some value := by
            rw [scatter_getElem?_of_notMem hfirst]
            exact List.getElem?_set_self (hplaces place List.mem_cons_self)
          have hothers : gather default order (scatter order values (old.set place value)) =
              values := by
            refine ih hrest ?_ (Nat.succ_inj.mp hlength)
            intro other hother
            rw [List.length_set]
            exact hplaces other (List.mem_cons_of_mem _ hother)
          have hhere : (scatter order values (old.set place value)).getD place default = value := by
            rw [List.getD_eq_getElem?_getD, hplace, Option.getD_some]
          exact congrArg₂ List.cons hhere hothers

/-- Where the order has every place once, the values read are put back. -/
theorem scatter_gather (default : α) {order : List Nat} {values old : List α}
    (hperm : order.Perm (List.range values.length)) (hlength : old.length = values.length) :
    scatter order (gather default order values) old = values := by
  have hnodup : order.Nodup := hperm.nodup_iff.mpr List.nodup_range
  have hplaces : ∀ place, place ∈ order ↔ place < values.length := fun place => by
    rw [hperm.mem_iff, List.mem_range]
  have hread : gather default order (scatter order (gather default order values) old) =
      gather default order values := by
    refine gather_scatter default hnodup ?_ (by rw [gather, List.length_map])
    intro place hplace
    rw [hlength]
    exact (hplaces place).mp hplace
  apply List.ext_getElem
  · rw [scatter_length, hlength]
  · intro place hplace hplace'
    have hmem := (hplaces place).mpr hplace'
    have hsame := List.map_inj_left.mp hread place hmem
    rwa [List.getD_eq_getElem _ _ hplace, List.getD_eq_getElem _ _ hplace'] at hsame

end AirspyhfWsprd.Library
