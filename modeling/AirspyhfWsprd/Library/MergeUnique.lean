import Mathlib.Data.List.Basic
import Mathlib.Data.List.Forall2
import Mathlib.Data.List.Sublists

/-!
Merging a list of additions into a bounded list without duplicates. An addition
that is the same as an earlier entry fills in what this entry lacks; any other is
appended. "The same" need not be transitive.
-/

namespace AirspyhfWsprd.Library

variable {α : Type*}

section Definitions

variable (same : α → α → Bool) (fill : α → α → α)

/-- The list with its first entry that is the same filled in, if there is one. -/
def fillFirst (addition : α) : List α → Option (List α)
  | [] => none
  | entry :: rest =>
      if same entry addition then some (fill entry addition :: rest)
      else (fillFirst addition rest).map (entry :: ·)

def mergeUnique (capacity : Nat) : List α → List α → List α
  | entries, [] => entries
  | entries, addition :: rest =>
      if entries.length < capacity then
        match fillFirst same fill addition entries with
        | some filled => mergeUnique capacity filled rest
        | none => mergeUnique capacity (entries ++ [addition]) rest
      else entries

/-- What a merge relies on. `Kept before after` is what filling in does to an entry
and `Served entry addition` what it achieves for the addition. -/
structure MergeRules (Kept Served : α → α → Prop) : Prop where
  refl : ∀ entry, Kept entry entry
  trans : ∀ {first second third}, Kept first second → Kept second third → Kept first third
  fill_kept : ∀ {entry addition}, same entry addition = true → Kept entry (fill entry addition)
  same_left : ∀ {entry kept}, Kept entry kept → ∀ other, same kept other = same entry other
  same_right : ∀ {entry kept}, Kept entry kept → ∀ other, same other kept = same other entry
  fill_serves : ∀ {entry addition}, same entry addition = true →
    Served (fill entry addition) addition
  kept_serves : ∀ {entry kept addition}, Kept entry kept → Served entry addition →
    Served kept addition
  serves_self : ∀ addition, Served addition addition
  served_fill : ∀ {entry addition}, Served entry addition → fill entry addition = entry

/-- The addition is the same as an entry, and the first such entry serves it. -/
def Covers (Served : α → α → Prop) (entries : List α) (addition : α) : Prop :=
  ∃ entry, entries.find? (same · addition) = some entry ∧ Served entry addition

/-- From position `start` on, no entry is the same as one before it. -/
def FreshFrom (start : Nat) (entries : List α) : Prop :=
  ∀ i j, i < j → start ≤ j → ∀ earlier ∈ entries[i]?, ∀ later ∈ entries[j]?,
    same earlier later = false

end Definitions

variable {same : α → α → Bool} {fill : α → α → α} {Kept Served : α → α → Prop}

/-- When no entry is filled in, the addition is the same as none of them. -/
theorem fillFirst_none {addition : α} {entries : List α}
    (h : fillFirst same fill addition entries = none) :
    ∀ entry ∈ entries, same entry addition = false := by
  induction entries with
  | nil =>
      intro entry hentry
      cases hentry
  | cons entry rest ih =>
      rw [fillFirst] at h
      split at h
      · cases h
      · rename_i hother
        intro other hmem
        rcases List.mem_cons.mp hmem with rfl | hrest
        · exact Bool.eq_false_iff.mpr hother
        · exact ih (Option.map_eq_none_iff.mp h) other hrest

/-- Filling in changes one entry, which then serves the addition, and keeps all others. -/
theorem fillFirst_kept (rules : MergeRules same fill Kept Served) {addition : α}
    {entries filled : List α} (h : fillFirst same fill addition entries = some filled) :
    List.Forall₂ Kept entries filled ∧ Covers same Served filled addition := by
  induction entries generalizing filled with
  | nil => cases h
  | cons entry rest ih =>
      rw [fillFirst] at h
      split at h
      · rename_i hsame
        obtain rfl := Option.some.inj h
        have hkept := rules.fill_kept hsame
        refine ⟨.cons hkept (List.forall₂_same.mpr fun other _ => rules.refl other), ?_⟩
        refine ⟨_, ?_, rules.fill_serves hsame⟩
        rw [List.find?_cons, rules.same_left hkept, hsame]
      · rename_i hother
        obtain ⟨tail, htail, rfl⟩ := Option.map_eq_some_iff.mp h
        obtain ⟨hkept, server, hserver, hserves⟩ := ih htail
        refine ⟨.cons (rules.refl entry) hkept, server, ?_, hserves⟩
        rw [List.find?_cons, Bool.eq_false_iff.mpr hother]
        exact hserver

theorem forall₂_trans (rules : MergeRules same fill Kept Served) {first second third : List α}
    (hfirst : List.Forall₂ Kept first second) (hsecond : List.Forall₂ Kept second third) :
    List.Forall₂ Kept first third := by
  induction hfirst generalizing third with
  | nil => exact hsecond
  | cons hentry _ ih =>
      cases hsecond with
      | cons hother hrest => exact .cons (rules.trans hentry hother) (ih hrest)

/-- An addition that is served stays served when entries are filled in further and others are
appended. -/
theorem covers_kept (rules : MergeRules same fill Kept Served) {addition : α}
    {entries kept : List α} (h : Covers same Served entries addition)
    (hkept : List.Forall₂ Kept entries kept) (extra : List α) :
    Covers same Served (kept ++ extra) addition := by
  induction hkept with
  | nil =>
      obtain ⟨server, hserver, -⟩ := h
      cases hserver
  | @cons entry other rest others hentry hrest ih =>
      obtain ⟨server, hserver, hserves⟩ := h
      rw [List.find?_cons] at hserver
      rw [List.cons_append, Covers, List.find?_cons, rules.same_left hentry]
      cases hsame : same entry addition with
      | true =>
          rw [hsame] at hserver
          obtain rfl := Option.some.inj hserver
          exact ⟨other, rfl, rules.kept_serves hentry hserves⟩
      | false =>
          rw [hsame] at hserver
          exact ih ⟨server, hserver, hserves⟩

/-- Filling in makes no appended entry the same as one before it, since it changes nothing that
the comparison looks at. -/
theorem freshFrom_kept (rules : MergeRules same fill Kept Served) {start : Nat}
    {entries kept : List α} (h : FreshFrom same start entries)
    (hkept : List.Forall₂ Kept entries kept) : FreshFrom same start kept := by
  intro i j hij hj earlier hearlier later hlater
  obtain ⟨hi, rfl⟩ := List.getElem?_eq_some_iff.mp hearlier
  obtain ⟨hj', rfl⟩ := List.getElem?_eq_some_iff.mp hlater
  have hlength := hkept.length_eq
  have hbefore := List.forall₂_iff_get.mp hkept |>.2
  have hfirst := hbefore i (by omega) hi
  have hsecond := hbefore j (by omega) hj'
  rw [List.get_eq_getElem, List.get_eq_getElem] at hfirst hsecond
  rw [rules.same_left hfirst, rules.same_right hsecond]
  exact h i j hij hj _ (List.getElem?_eq_getElem _) _ (List.getElem?_eq_getElem _)

/-- An addition that is the same as no entry may be appended, and all appended entries are
still different from those before them. -/
theorem freshFrom_append {start : Nat} {entries : List α} {addition : α}
    (h : FreshFrom same start entries)
    (hnew : ∀ entry ∈ entries, same entry addition = false) :
    FreshFrom same start (entries ++ [addition]) := by
  intro i j hij hj earlier hearlier later hlater
  rcases Nat.lt_or_ge j entries.length with hlt | hge
  · rw [List.getElem?_append_left (by omega)] at hearlier hlater
    exact h i j hij hj earlier hearlier later hlater
  · obtain ⟨hj', -⟩ := List.getElem?_eq_some_iff.mp hlater
    rw [List.length_append, List.length_singleton] at hj'
    obtain rfl : j = entries.length := by omega
    rw [List.getElem?_append_left hij] at hearlier
    rw [List.getElem?_concat_length] at hlater
    obtain rfl := Option.some.inj hlater
    exact hnew earlier (List.mem_of_getElem? hearlier)

theorem freshFrom_length (entries : List α) : FreshFrom same entries.length entries := by
  intro i j hij hj earlier _ later hlater
  rw [List.getElem?_eq_none hj] at hlater
  cases hlater

/-- The merge never grows beyond its capacity, as an addition is appended only where there is
room. -/
theorem mergeUnique_length {capacity : Nat} {entries additions : List α}
    (h : entries.length ≤ capacity) (rules : MergeRules same fill Kept Served) :
    (mergeUnique same fill capacity entries additions).length ≤ capacity := by
  induction additions generalizing entries with
  | nil => exact h
  | cons addition rest ih =>
      rw [mergeUnique]
      split
      · rename_i hroom
        split
        · rename_i filled hfilled
          apply ih
          rw [← (fillFirst_kept rules hfilled).1.length_eq]
          exact h
        · apply ih
          rw [List.length_append, List.length_singleton]
          exact hroom
      · exact h

/-- The entries stay in front, and additions in their order come behind them. -/
theorem mergeUnique_kept (rules : MergeRules same fill Kept Served) (capacity : Nat)
    (entries additions : List α) :
    ∃ chosen, chosen.Sublist additions ∧
      List.Forall₂ Kept (entries ++ chosen) (mergeUnique same fill capacity entries additions) := by
  induction additions generalizing entries with
  | nil =>
      refine ⟨[], .slnil, ?_⟩
      rw [List.append_nil]
      exact List.forall₂_same.mpr fun entry _ => rules.refl entry
  | cons addition rest ih =>
      rw [mergeUnique]
      split
      · split
        · rename_i filled hfilled
          obtain ⟨chosen, hchosen, hkept⟩ := ih filled
          refine ⟨chosen, hchosen.cons addition, ?_⟩
          have hfirst : List.Forall₂ Kept (entries ++ chosen) (filled ++ chosen) :=
            List.rel_append (fillFirst_kept rules hfilled).1
              (List.forall₂_same.mpr fun entry _ => rules.refl entry)
          exact forall₂_trans rules hfirst hkept
        · obtain ⟨chosen, hchosen, hkept⟩ := ih (entries ++ [addition])
          refine ⟨addition :: chosen, hchosen.cons_cons addition, ?_⟩
          rwa [List.append_assoc, List.singleton_append] at hkept
      · refine ⟨[], List.nil_sublist _, ?_⟩
        rw [List.append_nil]
        exact List.forall₂_same.mpr fun entry _ => rules.refl entry

/-- In the result of a merge no appended entry is the same as one before it. -/
theorem mergeUnique_fresh (rules : MergeRules same fill Kept Served) (capacity : Nat) {start : Nat}
    {entries : List α} (additions : List α) (h : FreshFrom same start entries) :
    FreshFrom same start (mergeUnique same fill capacity entries additions) := by
  induction additions generalizing entries with
  | nil => exact h
  | cons addition rest ih =>
      rw [mergeUnique]
      split
      · split
        · rename_i filled hfilled
          exact ih (freshFrom_kept rules h (fillFirst_kept rules hfilled).1)
        · rename_i hnone
          exact ih (freshFrom_append h (fillFirst_none hnone))
      · exact h

/-- What was there stays in front. -/
theorem mergeUnique_take (rules : MergeRules same fill Kept Served) (capacity : Nat)
    (entries additions : List α) :
    List.Forall₂ Kept entries
      ((mergeUnique same fill capacity entries additions).take entries.length) := by
  obtain ⟨chosen, -, hkept⟩ := mergeUnique_kept rules capacity entries additions
  have hfront := List.forall₂_take entries.length hkept
  rwa [List.take_left] at hfront

theorem covers_mergeUnique (rules : MergeRules same fill Kept Served) (capacity : Nat)
    {entries : List α} (additions : List α) {addition : α}
    (h : Covers same Served entries addition) :
    Covers same Served (mergeUnique same fill capacity entries additions) addition := by
  have hcovers := covers_kept rules h (mergeUnique_take rules capacity entries additions)
    ((mergeUnique same fill capacity entries additions).drop entries.length)
  rwa [List.take_append_drop] at hcovers

/-- With room to spare, every addition is served by the first entry it is the same as. -/
theorem mergeUnique_covers (rules : MergeRules same fill Kept Served) {capacity : Nat}
    {entries additions : List α} (hself : ∀ addition ∈ additions, same addition addition = true)
    (hroom : (mergeUnique same fill capacity entries additions).length < capacity) :
    ∀ addition ∈ additions,
      Covers same Served (mergeUnique same fill capacity entries additions) addition := by
  induction additions generalizing entries with
  | nil =>
      intro addition haddition
      cases haddition
  | cons first rest ih =>
      have hgrows := (mergeUnique_take rules capacity entries (first :: rest)).length_eq
      rw [List.length_take] at hgrows
      have hlt : entries.length < capacity := by omega
      rw [mergeUnique, if_pos hlt] at hroom ⊢
      have hrest := List.forall_mem_cons.mp hself
      intro addition haddition
      split at hroom <;> rename_i hfill
      · rcases List.mem_cons.mp haddition with rfl | hmem
        · exact covers_mergeUnique rules capacity rest (fillFirst_kept rules hfill).2
        · exact ih hrest.2 hroom addition hmem
      · rcases List.mem_cons.mp haddition with rfl | hmem
        · apply covers_mergeUnique rules capacity rest
          refine ⟨addition, ?_, rules.serves_self addition⟩
          have hnone : entries.find? (same · addition) = none :=
            List.find?_eq_none.mpr fun entry hentry =>
              Bool.eq_false_iff.mp (fillFirst_none hfill entry hentry)
          rw [List.find?_append, hnone, Option.none_or, List.find?_cons, hrest.1]
        · exact ih hrest.2 hroom addition hmem

/-- Filling in for an addition that is served changes nothing. -/
theorem fillFirst_served (rules : MergeRules same fill Kept Served) {addition : α}
    {entries : List α} (h : Covers same Served entries addition) :
    fillFirst same fill addition entries = some entries := by
  obtain ⟨server, hserver, hserves⟩ := h
  induction entries with
  | nil => cases hserver
  | cons entry rest ih =>
      rw [List.find?_cons] at hserver
      rw [fillFirst]
      cases hsame : same entry addition with
      | true =>
          rw [hsame] at hserver
          obtain rfl := Option.some.inj hserver
          rw [if_pos rfl, rules.served_fill hserves]
      | false =>
          rw [hsame] at hserver
          rw [if_neg Bool.false_ne_true, ih hserver, Option.map_some]

/-- Merging additions that are all served already gives back the list: a merge repeated adds
nothing. -/
theorem mergeUnique_served (rules : MergeRules same fill Kept Served) (capacity : Nat)
    {entries additions : List α}
    (h : ∀ addition ∈ additions, Covers same Served entries addition) :
    mergeUnique same fill capacity entries additions = entries := by
  induction additions with
  | nil => rfl
  | cons addition rest ih =>
      obtain ⟨hfirst, hrest⟩ := List.forall_mem_cons.mp h
      rw [mergeUnique]
      split
      · rw [fillFirst_served rules hfirst]
        exact ih hrest
      · rfl

/-- Merging the same additions again changes nothing. -/
theorem mergeUnique_again (rules : MergeRules same fill Kept Served) {capacity : Nat}
    {entries additions : List α} (hself : ∀ addition ∈ additions, same addition addition = true) :
    mergeUnique same fill capacity (mergeUnique same fill capacity entries additions) additions =
      mergeUnique same fill capacity entries additions := by
  rcases Nat.lt_or_ge (mergeUnique same fill capacity entries additions).length capacity with
    hroom | hfull
  · exact mergeUnique_served rules capacity (mergeUnique_covers rules hself hroom)
  · cases additions with
    | nil => rfl
    | cons addition rest =>
        generalize mergeUnique same fill capacity entries (addition :: rest) = merged at *
        rw [mergeUnique, if_neg (Nat.not_lt_of_le hfull)]

end AirspyhfWsprd.Library
