import AirspyhfWsprd.Bands.HopPlan
import Mathlib.Order.Interval.Finset.Nat

/-!
The adaptive hop schedule: five ranked hops, and every sixth hop for a candidate
that is not ranked. It is computed from the clock alone.
-/

namespace AirspyhfWsprd.Bands

open Library

/-- The band that the schedule's result points to: an entry of one of its two plans. -/
inductive HopPointer where
  | ranked (index : Nat)
  | candidate (index : Nat)
deriving DecidableEq

def HopPointer.target (ranked candidates : WsprHopPlan) : HopPointer → Option WsprHopBand
  | .ranked index => ranked.bands[index]?
  | .candidate index => candidates.bands[index]?

def planContainsDatabaseBand (plan : WsprHopPlan) (databaseBand : Int32) : Bool :=
  plan.bands.any fun band => band.databaseBand == databaseBand

def excludedCount (ranked : WsprHopPlan) (candidates : List WsprHopBand) : Nat :=
  candidates.countP fun band => !planContainsDatabaseBand ranked band.databaseBand

/-- The loop over the candidates that skips `wanted` of those outside the ranking and gives the
place of the next one. -/
def exploredIndex (ranked : WsprHopPlan) : (wanted index : Nat) → List WsprHopBand → Option Nat
  | _, _, [] => none
  | wanted, index, band :: rest =>
      if planContainsDatabaseBand ranked band.databaseBand then
        exploredIndex ranked wanted (index + 1) rest
      else
        match wanted with
        | 0 => some index
        | wanted + 1 => exploredIndex ranked wanted (index + 1) rest

/-- `wspr_adaptive_hop_band_at_dwell`: the pointer it returns, `none` for a null
pointer, and `*exploration_slot`. -/
def wsprAdaptiveHopBandAtDwell (ranked candidates : WsprHopPlan) (utcSeconds : Int)
    (dwellSeconds : Nat) : Option HopPointer × Bool :=
  if ranked.bands.length = 0 ∨ candidates.bands.length = 0 ∨ utcSeconds < 0 ∨ dwellSeconds = 0 then
    (none, false)
  else
    let slot := utcSeconds.toNat / dwellSeconds
    let excluded := excludedCount ranked candidates.bands
    -- removing one slot per hour keeps the ranked rotation continuous
    let rankedSlot := if excluded = 0 then slot else slot - slot / 6
    let next := (some (.ranked (rankedSlot % ranked.bands.length)), false)
    if slot % 6 = 5 ∧ excluded ≠ 0 then
      match exploredIndex ranked (slot / 6 % excluded) 0 candidates.bands with
      | some index => (some (.candidate index), true)
      | none => next
    else next

variable {ranked candidates : WsprHopPlan} {dwell : Nat}

def excluded (ranked candidates : WsprHopPlan) : Nat := excludedCount ranked candidates.bands

/-- The places of the excluded candidates, in candidate order. -/
def excludedIndexes (ranked candidates : WsprHopPlan) : List Nat :=
  candidates.bands.findIdxs fun band => !planContainsDatabaseBand ranked band.databaseBand

/-- The choice for the slot with this number. -/
def hopAt (ranked candidates : WsprHopPlan) (dwell slot : Nat) : Option HopPointer × Bool :=
  wsprAdaptiveHopBandAtDwell ranked candidates (slot * dwell : Nat) dwell

/-- The number of ranked slots before this one. -/
def rankedSlot (ranked candidates : WsprHopPlan) (slot : Nat) : Nat :=
  if excluded ranked candidates = 0 then slot else slot - slot / 6

theorem excludedIndexes_length (ranked candidates : WsprHopPlan) :
    (excludedIndexes ranked candidates).length = excluded ranked candidates :=
  List.length_findIdxs

/-- The walk over the candidates to the one to explore finds the candidate at the wanted place
among those that are not ranked. -/
theorem exploredIndex_eq (ranked : WsprHopPlan) (wanted start : Nat) (bands : List WsprHopBand) :
    exploredIndex ranked wanted start bands =
      (bands.findIdxs (fun band => !planContainsDatabaseBand ranked band.databaseBand)
        start)[wanted]? := by
  induction bands generalizing wanted start with
  | nil => rfl
  | cons band rest ih =>
      unfold exploredIndex
      rw [List.findIdxs_cons]
      cases planContainsDatabaseBand ranked band.databaseBand with
      | true => exact ih wanted (start + 1)
      | false =>
          cases wanted with
          | zero => rfl
          | succ wanted => exact ih wanted (start + 1)

/-- The choice depends on the slot only. -/
theorem adaptive_eq_hopAt (hdwell : 0 < dwell) {utcSeconds : Int} (hutc : 0 ≤ utcSeconds) :
    wsprAdaptiveHopBandAtDwell ranked candidates utcSeconds dwell =
      hopAt ranked candidates dwell (utcSeconds.toNat / dwell) := by
  have hslot : ((utcSeconds.toNat / dwell * dwell : Nat) : Int).toNat / dwell =
      utcSeconds.toNat / dwell := by
    rw [Int.toNat_natCast, Nat.mul_div_cancel _ hdwell]
  have hnonneg : ¬ ((utcSeconds.toNat / dwell * dwell : Nat) : Int) < 0 := by omega
  have hutc : ¬ utcSeconds < 0 := by omega
  simp only [hopAt, wsprAdaptiveHopBandAtDwell, hslot, hnonneg, hutc]

/-- The hop of a slot in closed form: every sixth slot explores where there is something to
explore, and the other slots go through the ranked bands in order, the exploring slots not
counted. -/
theorem hopAt_eq (hranked : ranked.bands ≠ []) (hcandidates : candidates.bands ≠ [])
    (hdwell : 0 < dwell) (slot : Nat) :
    hopAt ranked candidates dwell slot =
      let next := (some (.ranked (rankedSlot ranked candidates slot % ranked.bands.length)), false)
      if slot % 6 = 5 ∧ excluded ranked candidates ≠ 0 then
        match (excludedIndexes ranked candidates)[slot / 6 % excluded ranked candidates]? with
        | some index => (some (.candidate index), true)
        | none => next
      else next := by
  have hclock : ((slot * dwell : Nat) : Int).toNat / dwell = slot := by
    rw [Int.toNat_natCast, Nat.mul_div_cancel _ hdwell]
  rw [hopAt, wsprAdaptiveHopBandAtDwell, if_neg (by
    rw [List.length_eq_zero_iff, List.length_eq_zero_iff]
    simp only [hranked, hcandidates, false_or, not_or]
    omega)]
  dsimp only
  rw [hclock, exploredIndex_eq]
  rfl

/-- The sixth slot of a round explores the candidates that are not ranked one after the other,
in the order of the plan. -/
theorem hopAt_explores (hranked : ranked.bands ≠ []) (hcandidates : candidates.bands ≠ [])
    (hdwell : 0 < dwell) {slot : Nat} (hslot : slot % 6 = 5)
    (hexcluded : 0 < excluded ranked candidates) :
    ∃ index, (excludedIndexes ranked candidates)[slot / 6 % excluded ranked candidates]? =
        some index ∧ hopAt ranked candidates dwell slot = (some (.candidate index), true) := by
  have hlt : slot / 6 % excluded ranked candidates <
      (excludedIndexes ranked candidates).length := by
    rw [excludedIndexes_length]
    exact Nat.mod_lt _ hexcluded
  refine ⟨_, List.getElem?_eq_getElem hlt, ?_⟩
  rw [hopAt_eq hranked hcandidates hdwell]
  dsimp only
  rw [if_pos ⟨hslot, hexcluded.ne'⟩, List.getElem?_eq_getElem hlt]

theorem hopAt_ranked (hranked : ranked.bands ≠ []) (hcandidates : candidates.bands ≠ [])
    (hdwell : 0 < dwell) {slot : Nat}
    (hslot : ¬ (0 < excluded ranked candidates ∧ slot % 6 = 5)) :
    hopAt ranked candidates dwell slot =
      (some (.ranked (rankedSlot ranked candidates slot % ranked.bands.length)), false) := by
  rw [hopAt_eq hranked hcandidates hdwell]
  exact if_neg fun h => hslot ⟨Nat.pos_of_ne_zero h.2, h.1⟩

theorem hopAt_target (hranked : ranked.bands ≠ []) (hcandidates : candidates.bands ≠ [])
    (hdwell : 0 < dwell) (slot : Nat) :
    ∃ pointer band, (hopAt ranked candidates dwell slot).1 = some pointer ∧
      pointer.target ranked candidates = some band := by
  rcases Decidable.em (0 < excluded ranked candidates ∧ slot % 6 = 5) with hslot | hslot
  · obtain ⟨index, hindex, hhop⟩ := hopAt_explores hranked hcandidates hdwell hslot.2 hslot.1
    obtain ⟨hlt, -⟩ :=
      List.mem_findIdxs_iff_exists_getElem_pos.mp (List.mem_of_getElem? hindex)
    exact ⟨_, _, congrArg Prod.fst hhop, List.getElem?_eq_getElem hlt⟩
  · have hlength : 0 < ranked.bands.length := List.length_pos_iff.mpr hranked
    exact ⟨_, _, congrArg Prod.fst (hopAt_ranked hranked hcandidates hdwell hslot),
      List.getElem?_eq_getElem (Nat.mod_lt _ hlength)⟩

/-- The slot explores this candidate. -/
def Explores (ranked candidates : WsprHopPlan) (dwell slot index : Nat) : Prop :=
  hopAt ranked candidates dwell slot = (some (.candidate index), true)

def Exploring (ranked candidates : WsprHopPlan) (dwell slot : Nat) : Prop :=
  (hopAt ranked candidates dwell slot).2 = true

structure FairSchedule (ranked candidates : WsprHopPlan) (dwell : Nat) : Prop where
  /-- At every time the choice is that of the time's slot, and it is a band. -/
  clock : ∀ utcSeconds : Int, 0 ≤ utcSeconds →
    wsprAdaptiveHopBandAtDwell ranked candidates utcSeconds dwell =
      hopAt ranked candidates dwell (utcSeconds.toNat / dwell)
  never_null : ∀ slot, ∃ pointer band,
    (hopAt ranked candidates dwell slot).1 = some pointer ∧
      pointer.target ranked candidates = some band
  explores_iff : ∀ slot,
    Exploring ranked candidates dwell slot ↔ 0 < excluded ranked candidates ∧ slot % 6 = 5
  /-- Any `6 * excluded` slots in a row explore every excluded candidate once. -/
  once : ∀ first, ∀ index ∈ excludedIndexes ranked candidates,
    ∃! slot, first ≤ slot ∧ slot < first + 6 * excluded ranked candidates ∧
      Explores ranked candidates dwell slot index
  /-- The exploring slot after the one of a candidate explores the cyclically next. -/
  in_order : ∀ slot position index next,
    (excludedIndexes ranked candidates)[position]? = some index →
    (excludedIndexes ranked candidates)[(position + 1) % excluded ranked candidates]? =
      some next →
    Explores ranked candidates dwell slot index →
    Explores ranked candidates dwell (slot + 6) next
  /-- From one slot that does not explore to the next one, one further in the ranked plan. -/
  rotation : ∀ slot next, slot < next →
    ¬ Exploring ranked candidates dwell slot → ¬ Exploring ranked candidates dwell next →
    (∀ between, slot < between → between < next → Exploring ranked candidates dwell between) →
    ∃ index, index < ranked.bands.length ∧
      (hopAt ranked candidates dwell slot).1 = some (.ranked index) ∧
      (hopAt ranked candidates dwell next).1 =
        some (.ranked ((index + 1) % ranked.bands.length))

/-- A slot explores exactly when it is the sixth of its round and some candidate is not ranked. -/
theorem exploring_iff (hranked : ranked.bands ≠ []) (hcandidates : candidates.bands ≠ [])
    (hdwell : 0 < dwell) (slot : Nat) :
    Exploring ranked candidates dwell slot ↔
      0 < excluded ranked candidates ∧ slot % 6 = 5 := by
  constructor
  · intro h
    rcases Decidable.em (0 < excluded ranked candidates ∧ slot % 6 = 5) with hslot | hslot
    · exact hslot
    · rw [Exploring, hopAt_ranked hranked hcandidates hdwell hslot] at h
      cases h
  · rintro ⟨hexcluded, hslot⟩
    obtain ⟨index, -, hhop⟩ := hopAt_explores hranked hcandidates hdwell hslot hexcluded
    rw [Exploring, hhop]

/-- A candidate that is not ranked is explored in the slots whose round has its place, counted
around the number of such candidates. So each has its turn once in as many rounds as there are
of them. -/
theorem explores_iff (hranked : ranked.bands ≠ []) (hcandidates : candidates.bands ≠ [])
    (hdwell : 0 < dwell) {slot position index : Nat}
    (hindex : (excludedIndexes ranked candidates)[position]? = some index) :
    Explores ranked candidates dwell slot index ↔
      slot % 6 = 5 ∧ slot / 6 % excluded ranked candidates = position := by
  obtain ⟨hposition, hvalue⟩ := List.getElem?_eq_some_iff.mp hindex
  rw [excludedIndexes_length] at hposition
  have hexcluded : 0 < excluded ranked candidates := Nat.zero_lt_of_lt hposition
  constructor
  · intro h
    have hslot := ((exploring_iff hranked hcandidates hdwell slot).mp (congrArg Prod.snd h)).2
    obtain ⟨other, hother, hhop⟩ := hopAt_explores hranked hcandidates hdwell hslot hexcluded
    rw [Explores, hhop] at h
    obtain rfl : other = index := HopPointer.candidate.inj (Option.some.inj (Prod.mk.inj h).1)
    obtain ⟨hlt, hsame⟩ := List.getElem?_eq_some_iff.mp hother
    exact ⟨hslot, (List.nodup_findIdxs.getElem_inj_iff).mp (hsame.trans hvalue.symm)⟩
  · rintro ⟨hslot, rfl⟩
    obtain ⟨other, hother, hhop⟩ := hopAt_explores hranked hcandidates hdwell hslot hexcluded
    obtain rfl := Option.some.inj (hindex.symm.trans hother)
    exact hhop

/-- Among as many slots in a row as six times the modulus, one exploring slot
has each remainder of its hour. -/
theorem existsUnique_slot {modulus position : Nat} (hposition : position < modulus)
    (first : Nat) :
    ∃! slot, first ≤ slot ∧ slot < first + 6 * modulus ∧
      slot % 6 = 5 ∧ slot / 6 % modulus = position := by
  have himage := Nat.image_Ico_mod (first / 6) modulus
  have hmem : position ∈ (Finset.Ico (first / 6) (first / 6 + modulus)).image (· % modulus) := by
    rw [himage]
    exact Finset.mem_range.mpr hposition
  obtain ⟨hour, hhour, hmod⟩ := Finset.mem_image.mp hmem
  have hbounds := Finset.mem_Ico.mp hhour
  have hback : (6 * hour + 5) / 6 = hour := by omega
  refine ⟨6 * hour + 5, ⟨by omega, by omega, by omega, by rw [hback]; exact hmod⟩, ?_⟩
  rintro slot ⟨hfirst, hlast, hslot, hsame⟩
  have hother : slot / 6 ∈ Finset.Ico (first / 6) (first / 6 + modulus) :=
    Finset.mem_Ico.mpr (by omega)
  have heq := Nat.mod_injOn_Ico (first / 6) modulus hother hhour (hsame.trans hmod.symm)
  omega

/-- Nothing is explored, or exactly the last slot of each hour is. -/
theorem rankedSlot_next {slot next : Nat} (hlt : slot < next)
    (hslot : ¬ (0 < excluded ranked candidates ∧ slot % 6 = 5))
    (hnext : ¬ (0 < excluded ranked candidates ∧ next % 6 = 5))
    (hbetween : ∀ between, slot < between → between < next →
      0 < excluded ranked candidates ∧ between % 6 = 5) :
    rankedSlot ranked candidates next = rankedSlot ranked candidates slot + 1 := by
  have hone := hbetween (slot + 1)
  have htwo := hbetween (slot + 2)
  rw [rankedSlot, rankedSlot]
  split <;> omega

/-- For a non-empty plan of candidates the schedule is fair: it explores in one dwell of six,
all candidates outside the ranking take turns at that, and the other dwells go round the
ranking. -/
theorem adaptive_schedule_fair (hranked : ranked.bands ≠ []) (hcandidates : candidates.bands ≠ [])
    (hdwell : 0 < dwell) : FairSchedule ranked candidates dwell := by
  have hexploring := exploring_iff hranked hcandidates hdwell
  have hlength : 0 < ranked.bands.length := List.length_pos_iff.mpr hranked
  constructor
  · intro utcSeconds hutc
    exact adaptive_eq_hopAt hdwell hutc
  · exact hopAt_target hranked hcandidates hdwell
  · exact hexploring
  · intro first index hindex
    obtain ⟨position, hposition⟩ := List.mem_iff_getElem?.mp hindex
    have hlt := (List.getElem?_eq_some_iff.mp hposition).1
    rw [excludedIndexes_length] at hlt
    simp only [explores_iff hranked hcandidates hdwell hposition]
    exact existsUnique_slot hlt first
  · intro slot position index next hindex hnext hexplores
    obtain ⟨hslot, hposition⟩ := (explores_iff hranked hcandidates hdwell hindex).mp hexplores
    apply (explores_iff hranked hcandidates hdwell hnext).mpr
    have hhour : (slot + 6) / 6 = slot / 6 + 1 := by omega
    refine ⟨by omega, ?_⟩
    rw [hhour, ← hposition, Nat.mod_add_mod]
  · intro slot next hlt hslot hnext hbetween
    simp only [hexploring] at hslot hnext hbetween
    refine ⟨_, Nat.mod_lt (rankedSlot ranked candidates slot) hlength, ?_, ?_⟩
    · rw [hopAt_ranked hranked hcandidates hdwell hslot]
    · rw [hopAt_ranked hranked hcandidates hdwell hnext,
        rankedSlot_next hlt hslot hnext hbetween, Nat.mod_add_mod]

def examplePlan : WsprHopPlan where
  bands := [⟨bytes "20m", 14095600, 14⟩, ⟨bytes "40m", 7038600, 7⟩, ⟨bytes "10m", 28124600, 28⟩]
  fits := by decide

def exampleRanking : WsprHopPlan where
  bands := [⟨bytes "10m", 28124600, 28⟩, ⟨bytes "20m", 14095600, 14⟩]
  fits := by decide

/-- A ranking of some bands of a larger plan, in dwells of ten minutes. -/
theorem exampleRanking_fair : FairSchedule exampleRanking examplePlan 600 :=
  adaptive_schedule_fair (by decide) (by decide) (by decide)

/-- A plan without candidates has pairwise distinct bands, and the schedule gives nothing. -/
theorem no_candidates_no_hop :
    ¬ ∀ (ranked candidates : WsprHopPlan) (dwell : Nat), ranked.bands ≠ [] →
      (candidates.bands.map (·.databaseBand)).Nodup → 0 < dwell →
        FairSchedule ranked candidates dwell := by
  intro h
  have hfair := h exampleRanking .empty 600 (by decide) List.nodup_nil (by decide)
  obtain ⟨pointer, band, hnone, -⟩ := hfair.never_null 0
  cases hnone

end AirspyhfWsprd.Bands
