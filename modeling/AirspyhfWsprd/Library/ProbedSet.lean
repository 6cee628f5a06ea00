import Mathlib.Data.Finset.Card
import AirspyhfWsprd.Library.Probing

/-!
A set kept in a probed table that nothing is ever removed from. A slot is free or holds
one key; a key is stored in the first free slot of its probe sequence.
-/

namespace AirspyhfWsprd.Library

variable {α : Type*}

/-- The slot where the search for a key ends: one that holds it, or a free one. -/
def findSlot [DecidableEq α] (size : Nat) (home : α → Nat) (table : Nat → Option α) (key : α) :
    Option Nat :=
  scan (fun slot => !(table slot).isSome || table slot == some key) size (home key) size

/-- The first free slot for a key. -/
def freeSlot (size : Nat) (home : α → Nat) (table : Nat → Option α) (key : α) : Option Nat :=
  scan (fun slot => (table slot).isNone) size (home key) size

/-- The occupied slots. -/
def occupiedSlots (size : Nat) (table : Nat → Option α) : Finset Nat :=
  (Finset.range size).filter fun slot => (table slot).isSome

/-- The table holds each of the members once, where a search finds it, and nothing else. -/
structure HoldsSet (size : Nat) (home : α → Nat) (table : Nat → Option α)
    (members : List α) : Prop where
  stored : ∀ key ∈ members, ∃ slot < size, table slot = some key ∧
    ChainIntact (fun i => (table i).isSome) size (home key) slot
  only : ∀ slot < size, ∀ key, table slot = some key → key ∈ members
  distinct : members.Nodup
  counted : (occupiedSlots size table).card = members.length

variable {size : Nat} {home : α → Nat} {table : Nat → Option α} {members : List α} {key : α}

theorem mem_occupiedSlots {slot : Nat} :
    slot ∈ occupiedSlots size table ↔ slot < size ∧ (table slot).isSome = true := by
  rw [occupiedSlots, Finset.mem_filter, Finset.mem_range]

theorem occupiedSlots_update {slot : Nat} (hslot : slot < size) (key : α) :
    occupiedSlots size (Function.update table slot (some key)) =
      insert slot (occupiedSlots size table) := by
  ext other
  rw [Finset.mem_insert, mem_occupiedSlots, mem_occupiedSlots, Function.update_apply]
  split
  · rename_i heq
    exact iff_of_true ⟨heq ▸ hslot, rfl⟩ (Or.inl heq)
  · rename_i hne
    exact (or_iff_right hne).symm

theorem holdsSet_empty (size : Nat) (home : α → Nat) :
    HoldsSet size home (fun _ => none) [] where
  stored := List.forall_mem_nil _
  only := by
    intro slot hslot key hkey
    cases hkey
  distinct := List.nodup_nil
  counted := by
    rw [List.length_nil, Finset.card_eq_zero, occupiedSlots]
    exact Finset.filter_false_of_mem fun slot _ => Bool.false_ne_true

/-- A table with fewer members than slots has a free slot. -/
theorem HoldsSet.exists_free (h : HoldsSet size home table members)
    (hroom : members.length < size) : ∃ slot < size, table slot = none := by
  by_contra hall
  have hfull : occupiedSlots size table = Finset.range size := by
    refine Finset.filter_true_of_mem fun slot hslot => ?_
    rw [Option.isSome_iff_ne_none]
    exact fun hnone => hall ⟨slot, Finset.mem_range.mp hslot, hnone⟩
  have hcount := h.counted
  rw [hfull, Finset.card_range] at hcount
  omega

/-- While there is a free slot a search ends at an occupied one exactly for a member. -/
theorem HoldsSet.find_iff [DecidableEq α] (h : HoldsSet size home table members)
    (hhome : home key < size) (hroom : members.length < size) :
    ∃ slot, findSlot size home table key = some slot ∧
      ((table slot).isSome = true ↔ key ∈ members) := by
  obtain ⟨free, hfree, hnone⟩ := h.exists_free hroom
  obtain ⟨slot, hscan⟩ := scan_ends (fun i => (table i).isSome) (fun i => table i == some key)
    hhome hfree (by rw [hnone]; rfl)
  refine ⟨slot, hscan, ?_⟩
  have hlt := scan_lt hhome hscan
  constructor
  · intro hoccupied
    have hstop := scan_stops hhome hscan
    rw [hoccupied, Bool.not_true, Bool.false_or, beq_iff_eq] at hstop
    exact h.only slot hlt key hstop
  · intro hmember
    obtain ⟨home, hhomeLt, hkey, hchain⟩ := h.stored key hmember
    obtain ⟨hit, -, hfound, hoccupied, -⟩ :=
      scan_finds_key (fun i => (table i).isSome) (fun i => table i == some key) hhome hhomeLt
        (by rw [hkey]; rfl) (beq_iff_eq.mpr hkey) hchain
    rw [hscan] at hfound
    exact Option.some.inj hfound ▸ hoccupied

theorem HoldsSet.free_exists (h : HoldsSet size home table members) (hhome : home key < size)
    (hroom : members.length < size) : ∃ slot, freeSlot size home table key = some slot := by
  obtain ⟨free, hfree, hnone⟩ := h.exists_free hroom
  obtain ⟨slot, hscan, -⟩ := scan_finds (fun i => (table i).isNone) hhome hfree (by rw [hnone]; rfl)
  exact ⟨slot, hscan⟩

/-- A new key in the first free slot joins the members. -/
theorem HoldsSet.insert (h : HoldsSet size home table members) (hhome : home key < size)
    (hnew : key ∉ members) {slot : Nat} (hscan : freeSlot size home table key = some slot) :
    HoldsSet size home (Function.update table slot (some key)) (members ++ [key]) := by
  have hlt := scan_lt hhome hscan
  have hfree : table slot = none := Option.isNone_iff_eq_none.mp (scan_stops hhome hscan)
  have hgrows : ∀ i, (table i).isSome = true →
      (Function.update table slot (some key) i).isSome = true := by
    intro i hi
    rw [Function.update_apply]
    split
    · rfl
    · exact hi
  have hother {i : Nat} (hi : (table i).isSome = true) : i ≠ slot := by
    rintro rfl
    rw [hfree] at hi
    cases hi
  constructor
  · intro other hmember
    rcases List.mem_append.mp hmember with hold | hlast
    · obtain ⟨place, hplace, hkey, hchain⟩ := h.stored other hold
      refine ⟨place, hplace, ?_, hchain.mono hgrows⟩
      rw [Function.update_of_ne (hother (by rw [hkey]; rfl)), hkey]
    · obtain rfl := List.mem_singleton.mp hlast
      refine ⟨slot, hlt, Function.update_self _ _ _, ChainIntact.mono hgrows fun k hk => ?_⟩
      exact Option.isNone_eq_false_iff.mp (scan_passed hhome hscan k hk)
  · intro place hplace other hkey
    rw [Function.update_apply] at hkey
    split at hkey
    · exact List.mem_append_right _ (List.mem_singleton.mpr (Option.some.inj hkey).symm)
    · exact List.mem_append_left _ (h.only place hplace other hkey)
  · exact h.distinct.append (List.nodup_singleton key) (List.disjoint_singleton.mpr hnew)
  · have hnot : slot ∉ occupiedSlots size table :=
      fun hmem => hother (mem_occupiedSlots.mp hmem).2 rfl
    rw [occupiedSlots_update hlt, Finset.card_insert_of_notMem hnot, h.counted, List.length_append,
      List.length_singleton]

end AirspyhfWsprd.Library
