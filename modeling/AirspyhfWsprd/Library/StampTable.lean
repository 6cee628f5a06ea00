import Mathlib.Data.Finset.Card
import Mathlib.Data.List.Basic
import Mathlib.Tactic.Common

/-!
A table of fixed size that remembers when each key was last recorded. Recording
a key overwrites its own entry or the first free one; in a full table that does
not hold the key it overwrites the oldest entry. An entry young enough is never
overwritten by another key as long as the young keys fit into the table.
-/

namespace AirspyhfWsprd.Library

structure Stamped (κ : Type*) where
  key : κ
  stamp : Int
deriving DecidableEq

section StampTable

variable {κ : Type*} [DecidableEq κ]

/-- The search for the slot of a key, over the entries from `index` on. `slot` and
`oldest` describe the oldest entry so far. -/
def slotLoop (free key : κ) : List (Stamped κ) → (index slot : Nat) → (oldest : Int) → Nat
  | [], _, slot, _ => slot
  | entry :: entries, index, slot, oldest =>
      if entry.key = key ∨ entry.key = free then index
      else if entry.stamp < oldest then slotLoop free key entries (index + 1) index entry.stamp
      else slotLoop free key entries (index + 1) slot oldest

def slotFor (free key : κ) (table : List (Stamped κ)) : Nat :=
  slotLoop free key table 0 0 ((table.head?.map (·.stamp)).getD 0)

def record (free key : κ) (stamp : Int) (table : List (Stamped κ)) : List (Stamped κ) :=
  table.set (slotFor free key table) ⟨key, stamp⟩

/-- Distinct keys in front, free entries behind them. -/
def Packed (free : κ) (table : List (Stamped κ)) : Prop :=
  ∃ used room, ∃ blank : Int, table = used ++ List.replicate room ⟨free, blank⟩ ∧
    (used.map (·.key)).Nodup ∧ ∀ entry ∈ used, entry.key ≠ free

variable {free key : κ} {stamp : Int} {table : List (Stamped κ)}

/-- The search for a slot stops at the first entry that has the key or is free, whatever stamps
it has seen before that. -/
theorem slotLoop_first {before after : List (Stamped κ)} {entry : Stamped κ}
    (hbefore : ∀ e ∈ before, e.key ≠ key ∧ e.key ≠ free)
    (hentry : entry.key = key ∨ entry.key = free) (index slot : Nat) (oldest : Int) :
    slotLoop free key (before ++ entry :: after) index slot oldest = index + before.length := by
  induction before generalizing index slot oldest with
  | nil => simp [slotLoop, hentry]
  | cons e before ih =>
      have hpassed : ¬ (e.key = key ∨ e.key = free) :=
        not_or.mpr (hbefore e List.mem_cons_self)
      have hrest := fun index slot oldest =>
        ih (fun e he => hbefore e (List.mem_cons_of_mem _ he)) index slot oldest
      simp only [List.cons_append, slotLoop, hpassed, if_false, hrest, ite_self,
        List.length_cons]
      omega

/-- Without the key and without a free entry, the search ends at an entry that no
other one is older than. -/
theorem slotLoop_oldest {entries : List (Stamped κ)}
    (hpassed : ∀ e ∈ entries, e.key ≠ key ∧ e.key ≠ free) (index slot : Nat) (oldest : Int) :
    slotLoop free key entries index slot oldest = slot ∧ (∀ e ∈ entries, oldest ≤ e.stamp) ∨
      ∃ before entry after, entries = before ++ entry :: after ∧
        slotLoop free key entries index slot oldest = index + before.length ∧
        entry.stamp ≤ oldest ∧ ∀ e ∈ entries, entry.stamp ≤ e.stamp := by
  induction entries generalizing index slot oldest with
  | nil => exact Or.inl ⟨rfl, fun _ h => nomatch h⟩
  | cons e entries ih =>
      have hskip : ¬ (e.key = key ∨ e.key = free) :=
        not_or.mpr (hpassed e List.mem_cons_self)
      have hrest := fun e' he => hpassed e' (List.mem_cons_of_mem e he)
      simp only [slotLoop, hskip, if_false]
      split
      · rename_i holder
        rcases ih hrest (index + 1) index e.stamp with
          ⟨hslot, hmin⟩ | ⟨before, entry, after, hentries, hslot, hle, hmin⟩
        · refine Or.inr ⟨[], e, entries, rfl, hslot, Int.le_of_lt holder, ?_⟩
          exact List.forall_mem_cons.mpr ⟨Int.le_refl _, hmin⟩
        · refine Or.inr ⟨e :: before, entry, after, by rw [hentries]; rfl, ?_,
            Int.le_trans hle (Int.le_of_lt holder), List.forall_mem_cons.mpr ⟨hle, hmin⟩⟩
          rw [hslot, List.length_cons]
          omega
      · rename_i hyounger
        rcases ih hrest (index + 1) slot oldest with
          ⟨hslot, hmin⟩ | ⟨before, entry, after, hentries, hslot, hle, hmin⟩
        · exact Or.inl ⟨hslot, List.forall_mem_cons.mpr ⟨Int.not_lt.mp hyounger, hmin⟩⟩
        · refine Or.inr ⟨e :: before, entry, after, by rw [hentries]; rfl, ?_, hle,
            List.forall_mem_cons.mpr ⟨Int.le_trans hle (Int.not_lt.mp hyounger), hmin⟩⟩
          rw [hslot, List.length_cons]
          omega

private theorem set_middle {α : Type*} (before after : List α) (old new : α) :
    (before ++ old :: after).set before.length new = before ++ new :: after := by
  simp

omit [DecidableEq κ] in
/-- Putting a key that no other entry has into the place of an entry. -/
private theorem replace_entry {before after : List (Stamped κ)} {old : Stamped κ}
    (hnodup : ((before ++ old :: after).map (·.key)).Nodup)
    (hused : ∀ e ∈ before ++ old :: after, e.key ≠ free) (hkey : key ≠ free)
    (hfresh : ∀ e ∈ before ++ after, e.key ≠ key) :
    ((before ++ ⟨key, stamp⟩ :: after).map (·.key)).Nodup ∧
      ∀ e ∈ before ++ ⟨key, stamp⟩ :: after, e.key ≠ free := by
  rw [List.map_append, List.map_cons, List.nodup_middle, List.nodup_cons,
    ← List.map_append] at hnodup ⊢
  refine ⟨⟨fun h => ?_, hnodup.2⟩, fun e he => ?_⟩
  · obtain ⟨e, he, heq⟩ := List.mem_map.mp h
    exact hfresh e he heq
  · rcases List.mem_append.mp he with he | he
    · exact hused e (List.mem_append_left _ he)
    · rcases List.mem_cons.mp he with rfl | he
      · exact hkey
      · exact hused e (List.mem_append_right _ (List.mem_cons_of_mem _ he))

private theorem record_first {before after : List (Stamped κ)} {entry : Stamped κ}
    (hbefore : ∀ e ∈ before, e.key ≠ key ∧ e.key ≠ free)
    (hentry : entry.key = key ∨ entry.key = free) (stamp : Int) :
    record free key stamp (before ++ entry :: after) = before ++ ⟨key, stamp⟩ :: after := by
  rw [record, slotFor, slotLoop_first hbefore hentry, Nat.zero_add, set_middle]

/-- A key that the table has is recorded in its own entry. -/
private theorem record_own {used : List (Stamped κ)} (hnodup : (used.map (·.key)).Nodup)
    (hused : ∀ e ∈ used, e.key ≠ free) (hkey : key ≠ free) (hmem : key ∈ used.map (·.key))
    (stamp : Int) (room : Nat) (blank : Int) :
    ∃ before old after, used ++ List.replicate room ⟨free, blank⟩ = before ++ old :: after ∧
      record free key stamp (used ++ List.replicate room ⟨free, blank⟩) =
        before ++ ⟨key, stamp⟩ :: after ∧
      Packed free (before ++ ⟨key, stamp⟩ :: after) ∧ old.key = key := by
  obtain ⟨old, hold, hkeyOld⟩ := List.mem_map.mp hmem
  obtain ⟨before, after, rfl⟩ := List.append_of_mem hold
  have hfresh : ∀ e ∈ before ++ after, e.key ≠ key := by
    rw [List.map_append, List.map_cons, List.nodup_middle, List.nodup_cons,
      ← List.map_append] at hnodup
    exact fun e he heq => hnodup.1 (hkeyOld ▸ heq ▸ List.mem_map_of_mem he)
  have hbefore : ∀ e ∈ before, e.key ≠ key ∧ e.key ≠ free := fun e he =>
    ⟨hfresh e (List.mem_append_left _ he), hused e (List.mem_append_left _ he)⟩
  rw [List.append_assoc, List.cons_append]
  refine ⟨before, old, _, rfl, record_first hbefore (Or.inl hkeyOld) stamp, ?_, hkeyOld⟩
  exact ⟨before ++ ⟨key, stamp⟩ :: after, room, blank, by
    rw [List.append_assoc, List.cons_append], replace_entry hnodup hused hkey hfresh⟩

/-- A key that the table does not have is recorded in the first free entry. -/
private theorem record_free {used : List (Stamped κ)} (hnodup : (used.map (·.key)).Nodup)
    (hpassed : ∀ e ∈ used, e.key ≠ key ∧ e.key ≠ free) (hkey : key ≠ free)
    (stamp : Int) (room : Nat) (blank : Int) :
    record free key stamp (used ++ List.replicate (room + 1) ⟨free, blank⟩) =
        used ++ ⟨key, stamp⟩ :: List.replicate room ⟨free, blank⟩ ∧
      Packed free (used ++ ⟨key, stamp⟩ :: List.replicate room ⟨free, blank⟩) := by
  refine ⟨record_first hpassed (Or.inr rfl) stamp, used ++ [⟨key, stamp⟩], room, blank, by
    rw [List.append_assoc, List.singleton_append], ?_, ?_⟩
  · rw [List.map_append, List.map_cons, List.map_nil, List.nodup_append]
    refine ⟨hnodup, List.nodup_singleton _, fun a ha b hb heq => ?_⟩
    obtain rfl : a = key := heq.trans (List.mem_singleton.mp hb)
    obtain ⟨e, he, heq⟩ := List.mem_map.mp ha
    exact (hpassed e he).1 heq
  · intro e he
    rcases List.mem_append.mp he with he | he
    · exact (hpassed e he).2
    · rw [List.mem_singleton.mp he]
      exact hkey

/-- A key that a full table does not have is recorded in the oldest entry. -/
private theorem record_oldest (hnodup : (table.map (·.key)).Nodup)
    (hpassed : ∀ e ∈ table, e.key ≠ key ∧ e.key ≠ free) (hkey : key ≠ free)
    (hne : table ≠ []) (stamp : Int) :
    ∃ before old after, table = before ++ old :: after ∧
      record free key stamp table = before ++ ⟨key, stamp⟩ :: after ∧
      Packed free (before ++ ⟨key, stamp⟩ :: after) ∧ ∀ e ∈ table, old.stamp ≤ e.stamp := by
  have holdest : ∃ before old after, table = before ++ old :: after ∧
      slotFor free key table = before.length ∧ ∀ e ∈ table, old.stamp ≤ e.stamp := by
    obtain ⟨first, rest, rfl⟩ := List.exists_cons_of_ne_nil hne
    rcases slotLoop_oldest hpassed 0 0 first.stamp with
      ⟨hslot, hmin⟩ | ⟨before, old, after, hsplit, hslot, -, hmin⟩
    · exact ⟨[], first, rest, rfl, hslot, hmin⟩
    · exact ⟨before, old, after, hsplit, hslot.trans (Nat.zero_add _), hmin⟩
  obtain ⟨before, old, after, hsplit, hslot, hmin⟩ := holdest
  have hrecord : record free key stamp table = before ++ ⟨key, stamp⟩ :: after := by
    rw [record, hslot, hsplit, set_middle]
  have hfresh : ∀ e ∈ before ++ after, e.key ≠ key := by
    intro e he
    refine (hpassed e ?_).1
    rw [hsplit]
    rcases List.mem_append.mp he with he | he
    · exact List.mem_append_left _ he
    · exact List.mem_append_right _ (List.mem_cons_of_mem _ he)
  refine ⟨before, old, after, hsplit, hrecord, ?_, hmin⟩
  have hused := fun e he => (hpassed e he).2
  rw [hsplit] at hnodup hused
  exact ⟨before ++ ⟨key, stamp⟩ :: after, 0, 0, by
    rw [List.replicate_zero, List.append_nil], replace_entry hnodup hused hkey hfresh⟩

/-- What recording a key does: its own entry, the first free one, or the oldest
entry of a full table without the key gives way to the new entry. -/
theorem record_cases (hpacked : Packed free table) (hkey : key ≠ free) (hne : table ≠ [])
    (stamp : Int) :
    ∃ before old after, table = before ++ old :: after ∧
      record free key stamp table = before ++ ⟨key, stamp⟩ :: after ∧
      Packed free (record free key stamp table) ∧
      (old.key = key ∨ old.key = free ∨
        (∀ e ∈ table, e.key ≠ key ∧ e.key ≠ free) ∧ (table.map (·.key)).Nodup ∧
          ∀ e ∈ table, old.stamp ≤ e.stamp) := by
  obtain ⟨used, room, blank, rfl, hnodup, hused⟩ := hpacked
  rcases Decidable.em (key ∈ used.map (·.key)) with hmem | hmem
  · obtain ⟨before, old, after, hsplit, hrecord, hpacked, hold⟩ :=
      record_own hnodup hused hkey hmem stamp room blank
    exact ⟨before, old, after, hsplit, hrecord, hrecord ▸ hpacked, Or.inl hold⟩
  have hpassed : ∀ e ∈ used, e.key ≠ key ∧ e.key ≠ free := fun e he =>
    ⟨fun heq => hmem (heq ▸ List.mem_map_of_mem he), hused e he⟩
  cases room with
  | succ room =>
      obtain ⟨hrecord, hpacked⟩ := record_free hnodup hpassed hkey stamp room blank
      exact ⟨used, ⟨free, blank⟩, _, rfl, hrecord, hrecord ▸ hpacked, Or.inr (Or.inl rfl)⟩
  | zero =>
      rw [List.replicate_zero, List.append_nil] at hne ⊢
      obtain ⟨before, old, after, hsplit, hrecord, hpacked, hmin⟩ :=
        record_oldest hnodup hpassed hkey hne stamp
      exact ⟨before, old, after, hsplit, hrecord, hrecord ▸ hpacked,
        Or.inr (Or.inr ⟨hpassed, hnodup, hmin⟩)⟩

theorem record_packed (hpacked : Packed free table) (hkey : key ≠ free) (hne : table ≠ []) :
    Packed free (record free key stamp table) := by
  obtain ⟨_, _, _, -, -, h, -⟩ := record_cases hpacked hkey hne stamp
  exact h

theorem record_length : (record free key stamp table).length = table.length :=
  List.length_set

theorem mem_record_self (hpacked : Packed free table) (hkey : key ≠ free) (hne : table ≠ []) :
    ⟨key, stamp⟩ ∈ record free key stamp table := by
  obtain ⟨before, _, after, -, h, -⟩ := record_cases hpacked hkey hne stamp
  rw [h]
  exact List.mem_append_right _ List.mem_cons_self

theorem mem_record {entry : Stamped κ} (h : entry ∈ record free key stamp table) :
    entry = ⟨key, stamp⟩ ∨ entry ∈ table :=
  (List.mem_or_eq_of_mem_set h).symm

/-- While the keys of all entries younger than `limit`, together with the recorded
one, fit into the table, no young entry of another key is overwritten. -/
theorem mem_record_of_young (hpacked : Packed free table) (hkey : key ≠ free)
    {limit : Int} {young : Finset κ} (hcard : young.card ≤ table.length)
    (hyoung : ∀ e ∈ table, e.key ≠ free → limit < e.stamp → e.key ∈ young)
    (hself : key ∈ young) {entry : Stamped κ} (hentry : entry ∈ table)
    (hused : entry.key ≠ free) (hother : entry.key ≠ key) (hlimit : limit < entry.stamp) :
    entry ∈ record free key stamp table := by
  have hne : table ≠ [] := List.ne_nil_of_mem hentry
  obtain ⟨before, old, after, hsplit, hrecord, -, hold⟩ :=
    record_cases hpacked hkey hne stamp
  rw [hrecord]
  rw [hsplit] at hentry
  rcases List.mem_append.mp hentry with hmem | hmem
  · exact List.mem_append_left _ hmem
  rcases List.mem_cons.mp hmem with rfl | hmem
  · exfalso
    rcases hold with h | h | ⟨hall, hnodup, hmin⟩
    · exact hother h
    · exact hused h
    -- Every entry is young, so the table's keys and the new one are too many.
    have hsub : (table.map (·.key)).toFinset ⊆ young.erase key := by
      intro k hk
      obtain ⟨e, he, rfl⟩ := List.mem_map.mp (List.mem_toFinset.mp hk)
      exact Finset.mem_erase.mpr ⟨(hall e he).1,
        hyoung e he (hall e he).2 (Int.lt_of_lt_of_le hlimit (hmin e he))⟩
    have hle := Finset.card_le_card hsub
    rw [List.toFinset_card_of_nodup hnodup, List.length_map, Finset.card_erase_of_mem hself] at hle
    have hpos : 0 < young.card := Finset.card_pos.mpr ⟨key, hself⟩
    omega
  · exact List.mem_append_right _ (List.mem_cons_of_mem _ hmem)

/-- A table does not hold more keys than it has entries. -/
theorem exists_key_missing {keys : List κ} (hdistinct : keys.Nodup)
    (hmany : table.length < keys.length) : ∃ key ∈ keys, key ∉ table.map (·.key) := by
  by_contra hkept
  have hsub : keys ⊆ table.map (·.key) := fun key hkey =>
    Decidable.not_not.mp fun h => hkept ⟨key, hkey, h⟩
  have hle := (List.subperm_of_subset hdistinct hsub).length_le
  rw [List.length_map] at hle
  omega

/-- Several keys recorded at one time, in their order. -/
def recordAll (free : κ) (stamp : Int) (table : List (Stamped κ)) (keys : List κ) :
    List (Stamped κ) :=
  keys.foldl (fun table key => record free key stamp table) table

theorem recordAll_length (keys : List κ) :
    (recordAll free stamp table keys).length = table.length := by
  induction keys generalizing table with
  | nil => rfl
  | cons key keys ih => exact ih.trans record_length

theorem recordAll_packed {keys : List κ} (stamp : Int) (hpacked : Packed free table)
    (hne : table ≠ []) (hkeys : ∀ key ∈ keys, key ≠ free) :
    Packed free (recordAll free stamp table keys) := by
  induction keys generalizing table with
  | nil => exact hpacked
  | cons key keys ih =>
      have hkey := hkeys key List.mem_cons_self
      have hne' : record free key stamp table ≠ [] :=
        List.ne_nil_of_mem (mem_record_self hpacked hkey hne)
      exact ih (record_packed hpacked hkey hne) hne' fun k hk =>
        hkeys k (List.mem_cons_of_mem _ hk)

theorem mem_recordAll {keys : List κ} {entry : Stamped κ}
    (h : entry ∈ recordAll free stamp table keys) :
    entry ∈ table ∨ entry.key ∈ keys ∧ entry.stamp = stamp := by
  induction keys generalizing table with
  | nil => exact Or.inl h
  | cons key keys ih =>
      rcases ih h with hmem | ⟨hkey, hstamp⟩
      · rcases mem_record hmem with rfl | hold
        · exact Or.inr ⟨List.mem_cons_self, rfl⟩
        · exact Or.inl hold
      · exact Or.inr ⟨List.mem_cons_of_mem _ hkey, hstamp⟩

/-- Young keys stay in the table under a stamp that is not older. -/
theorem recordAll_keeps {keys : List κ} (hpacked : Packed free table)
    (hkeys : ∀ key ∈ keys, key ≠ free) {limit : Int} (hlimit : limit < stamp)
    {young : Finset κ} (hcard : young.card ≤ table.length)
    (hyoung : ∀ e ∈ table, e.key ≠ free → limit < e.stamp → e.key ∈ young)
    (hself : ∀ key ∈ keys, key ∈ young) {entry : Stamped κ} (hentry : entry ∈ table)
    (hused : entry.key ≠ free) (hage : limit < entry.stamp) (hpast : entry.stamp ≤ stamp) :
    ∃ kept ∈ recordAll free stamp table keys, kept.key = entry.key ∧
      entry.stamp ≤ kept.stamp := by
  induction keys generalizing table entry with
  | nil => exact ⟨entry, hentry, rfl, Int.le_refl _⟩
  | cons key keys ih =>
      have hkey := hkeys key List.mem_cons_self
      have hkeySelf := hself key List.mem_cons_self
      have hne : table ≠ [] := List.ne_nil_of_mem hentry
      have hroom : young.card ≤ (record free key stamp table).length := by
        rw [record_length]
        exact hcard
      have hrest (e : Stamped κ) (he : e ∈ record free key stamp table) (hu : e.key ≠ free)
          (ha : limit < e.stamp) (hp : e.stamp ≤ stamp) :=
        ih (record_packed hpacked hkey hne) (fun k hk => hkeys k (List.mem_cons_of_mem _ hk))
          hroom (fun e he hu ha => by
            rcases mem_record he with rfl | hold
            · exact hkeySelf
            · exact hyoung e hold hu ha)
          (fun k hk => hself k (List.mem_cons_of_mem _ hk)) he hu ha hp
      rcases Decidable.em (entry.key = key) with hsame | hother
      · obtain ⟨kept, hkept, hkeptKey, hle⟩ :=
          hrest ⟨key, stamp⟩ (mem_record_self hpacked hkey hne) hkey hlimit (Int.le_refl _)
        exact ⟨kept, hkept, hkeptKey.trans hsame.symm, Int.le_trans hpast hle⟩
      · exact hrest entry (mem_record_of_young hpacked hkey hcard hyoung hkeySelf hentry hused
          hother hage) hused hage hpast

/-- A recorded key is in the table afterwards. -/
theorem recordAll_records {keys : List κ} (hpacked : Packed free table) (hne : table ≠ [])
    (hkeys : ∀ key ∈ keys, key ≠ free) {limit : Int} (hlimit : limit < stamp)
    {young : Finset κ} (hcard : young.card ≤ table.length)
    (hyoung : ∀ e ∈ table, e.key ≠ free → limit < e.stamp → e.key ∈ young)
    (hself : ∀ key ∈ keys, key ∈ young) {key : κ} (hkey : key ∈ keys) :
    ∃ kept ∈ recordAll free stamp table keys, kept.key = key ∧ stamp ≤ kept.stamp := by
  obtain ⟨before, after, rfl⟩ := List.append_of_mem hkey
  have hfree := hkeys key hkey
  have hsub : ∀ k ∈ before, k ≠ free :=
    fun k hk => hkeys k (List.mem_append_left _ hk)
  have hpacked' := recordAll_packed stamp hpacked hne hsub
  have hne' : recordAll free stamp table before ≠ [] := by
    rw [← List.length_pos_iff, recordAll_length, List.length_pos_iff]
    exact hne
  have hyoung' : ∀ e ∈ record free key stamp (recordAll free stamp table before),
      e.key ≠ free → limit < e.stamp → e.key ∈ young := by
    intro e he hu ha
    rcases mem_record he with rfl | hold
    · exact hself key hkey
    · rcases mem_recordAll hold with hold | ⟨hmem, -⟩
      · exact hyoung e hold hu ha
      · exact hself _ (List.mem_append_left _ hmem)
  have hresult : recordAll free stamp table (before ++ key :: after) =
      recordAll free stamp (record free key stamp (recordAll free stamp table before)) after := by
    simp only [recordAll, List.foldl_append, List.foldl_cons]
  rw [hresult]
  exact recordAll_keeps (record_packed hpacked' hfree hne')
    (fun k hk => hkeys k (List.mem_append_right _ (List.mem_cons_of_mem _ hk))) hlimit
    (by rw [record_length, recordAll_length]; exact hcard) hyoung'
    (fun k hk => hself k (List.mem_append_right _ (List.mem_cons_of_mem _ hk)))
    (mem_record_self hpacked' hfree hne') hfree hlimit (Int.le_refl _)

end StampTable

end AirspyhfWsprd.Library
