import AirspyhfWsprd.Bands.Advisor

/-!
Advice from the network chooses among the configured bands and no others: every
plan a parser accepts is a selection of the hop plan's entries, and so is every
band that the schedule then tunes to.
-/

namespace AirspyhfWsprd.Bands

open Library

/-- `calculate_receiver_frequency`, with the options it adds to the dial frequency. -/
def calculateReceiverFrequency (shift : Int32) (upconverter dialFrequency : UInt32) :
    Option UInt32 :=
  let tuned : Int := dialFrequency.toNat + shift.toInt + upconverter.toNat
  let center := tuned + 1500
  if tuned ≤ 0 ∨ 2 ^ 32 - 1 < center ∨
      ¬ (9000 ≤ center ∧ center ≤ 31000000 ∨ 60000000 ≤ center ∧ center ≤ 260000000) then none
  else some (UInt32.ofNat tuned.toNat)

/-- The loop of `main` that refuses to start with a band outside the receiver's ranges. -/
def hopPlanInRange (shift : Int32) (upconverter : UInt32) (plan : WsprHopPlan) : Bool :=
  plan.bands.all fun band =>
    (calculateReceiverFrequency shift upconverter band.frequencyHz).isSome

/-- A plan made of the candidates' own entries, each at most once. -/
structure SelectedFrom (candidates plan : WsprHopPlan) : Prop where
  count : plan.bands.length ≤ advisorResultBands
  distinct : plan.bands.Nodup
  entries : ∀ band ∈ plan.bands, band ∈ candidates.bands

variable {candidates ranked plan : WsprHopPlan}

theorem selectedFrom_empty (candidates : WsprHopPlan) : SelectedFrom candidates .empty :=
  ⟨Nat.zero_le _, List.nodup_nil, fun _ h => (nomatch h)⟩

/-- A candidate that the plan does not have yet may be added to a selection. The two bounds are
the ones the parsers check before they store: the capacity of a plan and the four bands of a
recommendation. -/
theorem SelectedFrom.add {band : WsprHopBand} (h : SelectedFrom candidates plan)
    (hroom : plan.bands.length < wsprMaxHopBands)
    (hcount : plan.bands.length < advisorResultBands) (hband : band ∈ candidates.bands)
    (hnew : band ∉ plan.bands) : SelectedFrom candidates (plan.add band hroom) := by
  constructor
  · rw [WsprHopPlan.bands_add, List.length_append, List.length_singleton]
    exact hcount
  · rw [WsprHopPlan.bands_add]
    apply h.distinct.append (List.nodup_singleton _)
    rwa [List.disjoint_singleton]
  · intro other hother
    rcases List.mem_append.mp hother with hold | hlast
    · exact h.entries other hold
    · exact List.mem_singleton.mp hlast ▸ hband

/-- One row of the database adds the first candidate of its band, or nothing when there is no
such candidate or the plan has it. Either way the plan stays a selection. -/
theorem rankBand_selected {databaseBand : Int32} (h : SelectedFrom candidates ranked)
    (hcount : ranked.bands.length < advisorResultBands)
    (hroom : ranked.bands.length < wsprMaxHopBands) :
    SelectedFrom candidates (rankBand candidates ranked databaseBand hroom) := by
  rw [rankBand]
  split
  · exact h
  · rename_i band hfound
    split
    · exact h
    · rename_i hnew
      apply h.add hroom hcount (List.mem_of_find?_eq_some hfound)
      intro hband
      have hsame : (band.databaseBand == databaseBand) = true :=
        List.find?_some (p := fun band : WsprHopBand => band.databaseBand == databaseBand) hfound
      exact hnew (List.any_eq_true.mpr ⟨band, hband, hsame⟩)

/-- The loop over the rows keeps the plan a selection of the candidates: each row either adds
one of them or makes the parser give up, and the loop ends before a fifth is added. -/
theorem wsprAdvisorLoop_selected {lines : List CString} (h : SelectedFrom candidates ranked)
    (hloop : wsprAdvisorLoop candidates ranked lines = some plan) :
    SelectedFrom candidates plan := by
  induction lines generalizing ranked with
  | nil =>
      obtain rfl := Option.some.inj hloop
      exact h
  | cons line lines ih =>
      rw [wsprAdvisorLoop] at hloop
      split at hloop
      · rename_i hcount
        split at hloop
        · cases hloop
        split at hloop
        · cases hloop
        split at hloop
        · cases hloop
        · exact ih (rankBand_selected h hcount _) hloop
      · obtain rfl := Option.some.inj hloop
        exact h

/-- The FT8 advisor accepts the first frequency that is close to a candidate's dial frequency,
so its plan is that one candidate. Induction on the lines: all others are passed over or
refused. -/
theorem ft8AdvisorLoop_selected {recommended : WsprHopPlan} {lines : List CString}
    (hloop : ft8AdvisorLoop candidates recommended lines = (true, plan)) :
    SelectedFrom candidates plan ∧ plan.bands.length = 1 := by
  induction lines with
  | nil => cases hloop
  | cons line lines ih =>
      rw [ft8AdvisorLoop] at hloop
      split at hloop
      · cases hloop
      dsimp only at hloop
      split at hloop
      · exact ih hloop
      split at hloop
      · cases hloop
      split at hloop
      · cases hloop
      split at hloop
      · rename_i band hfound
        obtain ⟨-, rfl⟩ := Prod.mk.inj hloop
        refine ⟨?_, rfl⟩
        exact (selectedFrom_empty candidates).add (by decide) (by decide)
          (List.mem_of_find?_eq_some hfound) List.not_mem_nil
      · exact ih hloop

/-- The search for the best candidate returns the one it was started with or one that has not
been selected before. -/
theorem bestCandidate_cases {selected : List Nat} {start index : Nat} {best : Option Nat}
    {bestCount : UInt64} {counts : List UInt64}
    (h : bestCandidate selected start best bestCount counts = some index) :
    best = some index ∨ index ∉ selected := by
  induction counts generalizing start best bestCount with
  | nil => exact Or.inl h
  | cons count counts ih =>
      rw [bestCandidate] at h
      split at h
      · rename_i hbetter
        rcases ih h with hbest | hother
        · exact Or.inr (Option.some.inj hbest ▸ hbetter.1)
        · exact Or.inr hother
      · exact ih h

/-- The repeated passes select no candidate twice, since each pass looks only at those that the
passes before it left. -/
theorem bestCandidates_nodup (counts : List UInt64) (room : Nat) {selected : List Nat}
    (h : selected.Nodup) : (bestCandidates counts room selected).Nodup := by
  induction room generalizing selected with
  | zero => exact h
  | succ room ih =>
      rw [bestCandidates]
      split
      · exact h
      · rename_i best hbest
        apply ih
        apply h.append (List.nodup_singleton _)
        rw [List.disjoint_singleton]
        rcases bestCandidate_cases hbest with hnone | hfresh
        · cases hnone
        · exact hfresh

/-- The ranking by monitors gives a selection: the indexes it selects are different and below
the number of candidates, so are the bands at these indexes. -/
theorem rankMonitors_selected (hcandidates : candidates.bands.Nodup) (counts : List UInt64) :
    SelectedFrom candidates (rankMonitors candidates counts) := by
  constructor
  · apply Nat.le_trans (List.length_filterMap_le _ _)
    exact Nat.le_trans (bestCandidates_length counts _ []) (by decide)
  · apply List.Nodup.filterMap _ (bestCandidates_nodup counts _ List.nodup_nil)
    intro i j band hi hj
    obtain ⟨hlt, hvalue⟩ := List.getElem?_eq_some_iff.mp hi
    obtain ⟨hlt', hvalue'⟩ := List.getElem?_eq_some_iff.mp hj
    exact (hcandidates.getElem_inj_iff).mp (hvalue.trans hvalue'.symm)
  · intro band hband
    obtain ⟨index, -, hindex⟩ := List.mem_filterMap.mp hband
    exact List.mem_of_getElem? hindex

/-- One of the three parsers accepts the response with this plan. -/
def Advised (candidates : WsprHopPlan) (response : CString) (plan : WsprHopPlan) : Prop :=
  wsprAdvisorParseResponse candidates response = some plan ∨
    ft8AdvisorParseResponse candidates response = some plan ∨
      ft8MonitorParseResponse candidates response = some plan

/-- Whatever the response, a plan that one of the three parsers accepts is a selection of the
candidates with at least one band. -/
theorem advised_selected {response : CString} (hcandidates : candidates.bands.Nodup)
    (h : Advised candidates response plan) :
    SelectedFrom candidates plan ∧ 1 ≤ plan.bands.length := by
  rcases h with hwspr | hft8 | hmonitor
  · rw [wsprAdvisorParseResponse] at hwspr
    split at hwspr
    · cases hwspr
    rename_i ranked hloop
    split at hwspr
    · cases hwspr
    obtain rfl := Option.some.inj hwspr
    exact ⟨wsprAdvisorLoop_selected (selectedFrom_empty candidates) hloop, by omega⟩
  · rw [ft8AdvisorParseResponse, ft8AdvisorParseInto] at hft8
    rcases hloop : ft8AdvisorLoop candidates .empty (separated '\n'.toUInt8 response) with
      ⟨_ | _, recommended⟩
    · rw [hloop] at hft8
      cases hft8
    · rw [hloop] at hft8
      obtain rfl := Option.some.inj hft8
      obtain ⟨hselected, hone⟩ := ft8AdvisorLoop_selected hloop
      exact ⟨hselected, hone.ge⟩
  · rw [ft8MonitorParseResponse] at hmonitor
    split at hmonitor
    · cases hmonitor
    rename_i counts _
    dsimp only at hmonitor
    split at hmonitor
    · cases hmonitor
    obtain rfl := Option.some.inj hmonitor
    exact ⟨rankMonitors_selected hcandidates counts, by omega⟩

theorem target_mem {pointer : HopPointer} {band : WsprHopBand}
    (hselected : SelectedFrom candidates plan)
    (h : pointer.target plan candidates = some band) : band ∈ candidates.bands := by
  cases pointer with
  | ranked index => exact hselected.entries band (List.mem_of_getElem? h)
  | candidate index => exact List.mem_of_getElem? h

/-- Whatever the network answers, an accepted plan has one to four entries of the hop plan, and
every later choice is an entry of the hop plan that `main` has checked. A parser takes nothing
out of a response but places in the hop plan. -/
theorem advice_stays_on_hop_plan {list response : CString} {hopPlan : WsprHopPlan}
    (hlist : wsprHopPlanParse list = some hopPlan ∨ ft8HopPlanParse list = some hopPlan)
    (hadvised : Advised hopPlan response plan) :
    SelectedFrom hopPlan plan ∧ 1 ≤ plan.bands.length ∧
      ∀ (utcSeconds : Int) (dwell : Nat), 0 ≤ utcSeconds → 0 < dwell →
        ∃ pointer band,
          (wsprAdaptiveHopBandAtDwell plan hopPlan utcSeconds dwell).1 = some pointer ∧
          pointer.target plan hopPlan = some band ∧ band ∈ hopPlan.bands ∧
          ∀ shift upconverter, hopPlanInRange shift upconverter hopPlan = true →
            (calculateReceiverFrequency shift upconverter band.frequencyHz).isSome := by
  have hbuilt : hopPlan.bands.Nodup ∧ 2 ≤ hopPlan.bands.length := by
    rcases hlist with hwspr | hft8
    · obtain ⟨hbuilt, hcount⟩ := hopPlanParse_built hwspr
      exact ⟨hbuilt.nodup, hcount⟩
    · obtain ⟨hbuilt, hcount⟩ := hopPlanParse_built hft8
      exact ⟨hbuilt.nodup, hcount⟩
  obtain ⟨hselected, hcount⟩ := advised_selected hbuilt.1 hadvised
  refine ⟨hselected, hcount, fun utcSeconds dwell hutc hdwell => ?_⟩
  have hplan : plan.bands ≠ [] := List.ne_nil_of_length_pos hcount
  have hhopPlan : hopPlan.bands ≠ [] := List.ne_nil_of_length_pos (by omega)
  obtain ⟨pointer, band, hpointer, htarget⟩ :=
    hopAt_target hplan hhopPlan hdwell (utcSeconds.toNat / dwell)
  have hband := target_mem hselected htarget
  rw [adaptive_eq_hopAt hdwell hutc]
  refine ⟨pointer, band, hpointer, htarget, hband, fun shift upconverter hrange => ?_⟩
  exact List.all_eq_true.mp hrange band hband

def exampleAdvice : WsprHopPlan where
  bands := [⟨bytes "40m", 7038600, 7⟩, ⟨bytes "20m", 14095600, 14⟩]
  fits := by decide

/-- `20m,40m,10m`, and two rows of the WSPR database. -/
theorem twoRows_stay_on_hop_plan :
    wsprAdvisorParseResponse examplePlan (bytes "7\t12\t30\n14\t9\t20\n") = some exampleAdvice ∧
      SelectedFrom examplePlan exampleAdvice := by
  have hlist : wsprHopPlanParse (bytes "20m,40m,10m") = some examplePlan := by decide
  have hadvice : wsprAdvisorParseResponse examplePlan (bytes "7\t12\t30\n14\t9\t20\n") =
      some exampleAdvice := by decide
  exact ⟨hadvice, (advice_stays_on_hop_plan (Or.inl hlist) (Or.inl hadvice)).1⟩

end AirspyhfWsprd.Bands
