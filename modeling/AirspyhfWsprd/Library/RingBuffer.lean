import Mathlib.Logic.Function.Basic
import Mathlib.Data.List.Basic
import Mathlib.Tactic.Common

/-!
Ring buffers: a fixed number of slots, the slot of the oldest item, and the
number of items. A well-formed ring is a bounded first-in, first-out list; each
operation is described by what it does to that list. Slots without an item may
hold anything.
-/

namespace AirspyhfWsprd.Library

structure RingBuffer (α : Type*) where
  slots : Nat → α
  head : Nat
  count : Nat
  capacity : Nat

namespace RingBuffer

variable {α : Type*}

def WellFormed (ring : RingBuffer α) : Prop :=
  ring.head < ring.capacity ∧ ring.count ≤ ring.capacity

/-- The slot of the item at a position, counted from the head. -/
def slotAt (ring : RingBuffer α) (position : Nat) : Nat := (ring.head + position) % ring.capacity

/-- The items from the head on. -/
def contents (ring : RingBuffer α) : List α :=
  (List.range ring.count).map fun position => ring.slots (ring.slotAt position)

/-- Stores an item behind the last one. -/
def push (ring : RingBuffer α) (item : α) : RingBuffer α :=
  {ring with
    slots := Function.update ring.slots (ring.slotAt ring.count) item
    count := ring.count + 1}

/-- Removes the item at the head. -/
def pop (ring : RingBuffer α) : RingBuffer α :=
  {ring with
    head := (ring.head + 1) % ring.capacity
    count := ring.count - 1}

/-- Overwrites the item at the head. -/
def modifyHead (ring : RingBuffer α) (change : α → α) : RingBuffer α :=
  {ring with slots := Function.update ring.slots ring.head (change (ring.slots ring.head))}

theorem contents_length (ring : RingBuffer α) : ring.contents.length = ring.count := by
  simp [contents]

/-- The slots of the first `capacity` items are different: the ring does not overlap itself. -/
theorem slotAt_inj {ring : RingBuffer α} (hwf : ring.WellFormed) {i j : Nat}
    (hi : i < ring.capacity) (hj : j < ring.capacity)
    (heq : ring.slotAt i = ring.slotAt j) : i = j := by
  have hmod (k : Nat) (hk : k < ring.capacity) : ring.slotAt k =
      if ring.head + k < ring.capacity then ring.head + k
      else ring.head + k - ring.capacity := by
    have hhead := hwf.1
    unfold slotAt
    split
    · exact Nat.mod_eq_of_lt ‹_›
    · rw [Nat.mod_eq_sub_mod (by omega), Nat.mod_eq_of_lt (by omega)]
  have hhead := hwf.1
  rw [hmod i hi, hmod j hj] at heq
  split at heq <;> split at heq <;> omega

theorem slotAt_zero {ring : RingBuffer α} (hwf : ring.WellFormed) : ring.slotAt 0 = ring.head :=
  Nat.mod_eq_of_lt hwf.1

theorem contents_cons {ring : RingBuffer α} (hwf : ring.WellFormed) (hcount : 0 < ring.count) :
    ring.contents = ring.slots ring.head ::
      (List.range (ring.count - 1)).map fun position =>
          ring.slots (ring.slotAt (position + 1)) := by
  obtain ⟨rest, hrest⟩ := Nat.exists_eq_add_of_le' hcount
  simp only [contents, hrest, List.range_succ_eq_map, List.map_cons, List.map_map,
    slotAt_zero hwf, Nat.add_sub_cancel]
  rfl

theorem contents_head? {ring : RingBuffer α} (hwf : ring.WellFormed) (hcount : 0 < ring.count) :
    ring.contents.head? = some (ring.slots ring.head) := by
  rw [contents_cons hwf hcount, List.head?_cons]

/-- A push puts its item behind the others. The slot that it writes to holds none of them, as
the ring is not full. -/
theorem contents_push {ring : RingBuffer α} (hwf : ring.WellFormed)
    (hroom : ring.count < ring.capacity) (item : α) :
    (ring.push item).contents = ring.contents ++ [item] := by
  have hold : ∀ position < ring.count, (ring.push item).slots (ring.slotAt position) =
      ring.slots (ring.slotAt position) := by
    intro position hposition
    refine Function.update_of_ne (fun heq => ?_) _ _
    have := slotAt_inj hwf (by omega) hroom heq
    omega
  have hnew : (ring.push item).slots (ring.slotAt ring.count) = item :=
    Function.update_self ..
  have hslotAt : (ring.push item).slotAt = ring.slotAt := rfl
  have hcount : (ring.push item).count = ring.count + 1 := rfl
  simp only [contents, hcount, hslotAt, List.range_succ, List.map_append, List.map_cons,
    List.map_nil, hnew]
  congr 1
  exact List.map_congr_left fun position hposition =>
    hold position (List.mem_range.mp hposition)

theorem push_wellFormed {ring : RingBuffer α} (hwf : ring.WellFormed)
    (hroom : ring.count < ring.capacity) (item : α) : (ring.push item).WellFormed :=
  ⟨hwf.1, hroom⟩

theorem contents_pop {ring : RingBuffer α} (hwf : ring.WellFormed) (hcount : 0 < ring.count) :
    ring.pop.contents = ring.contents.tail := by
  rw [contents_cons hwf hcount, List.tail_cons]
  refine List.map_congr_left fun position _ => ?_
  have hslot : ring.pop.slotAt position = ring.slotAt (position + 1) := by
    simp only [slotAt, pop, Nat.mod_add_mod]
    congr 1
    omega
  rw [hslot]
  rfl

theorem pop_wellFormed {ring : RingBuffer α} (hwf : ring.WellFormed) : ring.pop.WellFormed :=
  ⟨Nat.mod_lt _ (Nat.zero_lt_of_lt hwf.1), Nat.le_trans (Nat.sub_le _ _) hwf.2⟩

/-- Changing the slot of the oldest item changes the head of the contents and nothing else. -/
theorem contents_modifyHead {ring : RingBuffer α} (hwf : ring.WellFormed) (hcount : 0 < ring.count)
    (change : α → α) : (ring.modifyHead change).contents =
      change (ring.slots ring.head) :: ring.contents.tail := by
  have hwf' : (ring.modifyHead change).WellFormed := hwf
  rw [contents_cons hwf hcount, contents_cons hwf' hcount, List.tail_cons]
  have hhead : (ring.modifyHead change).slots (ring.modifyHead change).head =
      change (ring.slots ring.head) := Function.update_self ..
  rw [hhead]
  congr 1
  refine List.map_congr_left fun position hposition => Function.update_of_ne (fun heq => ?_) _ _
  have hlt := List.mem_range.mp hposition
  have hbound := hwf.2
  have hcount' : (ring.modifyHead change).count = ring.count := rfl
  have hzero := slotAt_zero hwf
  have := slotAt_inj hwf (i := position + 1) (j := 0) (by omega) (by omega)
    (by rw [hzero]; exact heq)
  omega

end RingBuffer

end AirspyhfWsprd.Library
