import AirspyhfWsprd.Bands.AdvisorRows
import AirspyhfWsprd.Bands.HopPlanBuffer

/-!
What the five plan parsers leave in the plan they are given when they return false. All but one
of their failing exits leave it as it was or empty it; the last one of `hop_plan_parse` leaves the
band of a list that names only one.
-/

namespace AirspyhfWsprd.Bands

open Library

/-- `ft8_monitor_parse_response`: what it returns, and what it leaves in `*ranked`. The plan is
empty until the monitors have been counted. -/
def ft8MonitorParseInto (candidates : WsprHopPlan) (response : CString) : Bool × WsprHopPlan :=
  match monitorCounts candidates response with
  | none => (false, .empty)
  | some counts =>
      let ranked := rankMonitors candidates counts
      if ranked.bands.length < 2 then (false, .empty) else (true, ranked)

/-- The parsers that fill a plan. -/
inductive PlanParser where
  | hopPlan (ft8 : Bool)
  | wsprAdvisor
  | ft8Advisor
  | ft8Monitor

/-- A call of a parser with this plan for its output: what it returns, and the plan it leaves. -/
def PlanParser.parse (parser : PlanParser) (candidates : WsprHopPlan) (text : CString)
    (plan : WsprHopPlan) : Bool × WsprHopPlan :=
  match parser with
  | .hopPlan ft8 => hopPlanParseInto plan text ft8
  | .wsprAdvisor => wsprAdvisorParseInto candidates text
  | .ft8Advisor => ft8AdvisorParseInto candidates text
  | .ft8Monitor => ft8MonitorParseInto candidates text

/-- A call that returns false leaves the plan as it was, or without bands. -/
def PlanParser.NoPartialPlan (parser : PlanParser) (candidates : WsprHopPlan) (text : CString)
    (plan : WsprHopPlan) : Prop :=
  (parser.parse candidates text plan).1 = false →
    (parser.parse candidates text plan).2 = plan ∨
      (parser.parse candidates text plan).2.bands.length = 0

/-- A list that fits into the buffer and is nothing but an alias of this entry. -/
structure OneBand (table : List BandFrequency) (list : CString) (entry : BandFrequency) : Prop where
  short : list.length < 256
  single : ','.toUInt8 ∉ list
  names : FieldNames table list entry

/-- The WSPR advisor empties the plan when it begins and again when it gives up, so what it
leaves on a failure has no bands. -/
theorem wsprAdvisorLines_false {candidates ranked : WsprHopPlan} {text : CString}
    (h : (wsprAdvisorLines candidates ranked text).1 = false) :
    (wsprAdvisorLines candidates ranked text).2 = .empty := by
  rw [wsprAdvisorLines_eq] at h ⊢
  cases hloop : wsprAdvisorLoop candidates ranked (separated '\n'.toUInt8 text) with
  | none => rfl
  | some plan =>
      rw [hloop, rowsOutcome] at h
      rw [rowsOutcome]
      split
      · rfl
      · rename_i hcount
        rw [if_neg hcount] at h
        cases h

/-- The FT8 advisor stores a band only right before it returns true. A failing exit leaves the
plan as the loop found it. -/
theorem ft8AdvisorLoop_false {candidates recommended : WsprHopPlan} {lines : List CString}
    (h : (ft8AdvisorLoop candidates recommended lines).1 = false) :
    (ft8AdvisorLoop candidates recommended lines).2 = recommended := by
  induction lines with
  | nil => rfl
  | cons line lines ih =>
      rw [ft8AdvisorLoop] at h ⊢
      dsimp only at h ⊢
      split
      · rfl
      rename_i hlength
      rw [if_neg hlength] at h
      split
      · rename_i hblank
        rw [if_pos hblank] at h
        exact ih h
      rename_i hblank
      rw [if_neg hblank] at h
      cases hnumber : strtoul (skipSpace line) with
      | none => rfl
      | some number =>
          obtain ⟨frequency, overflow, behind⟩ := number
          rw [hnumber] at h
          dsimp only at h ⊢
          split
          · rfl
          rename_i hvalid
          rw [if_neg hvalid] at h
          cases hfound : candidates.bands.find? fun band => nearDial frequency band.frequencyHz with
          | none =>
              rw [hfound] at h
              exact ih h
          | some band =>
              rw [hfound] at h
              cases h

/-- The monitors' parser fills the plan after all objects have been read, and empties it again
when fewer than two bands came out. -/
theorem ft8MonitorParseInto_false {candidates : WsprHopPlan} {response : CString}
    (h : (ft8MonitorParseInto candidates response).1 = false) :
    (ft8MonitorParseInto candidates response).2 = .empty := by
  rw [ft8MonitorParseInto] at h ⊢
  cases hcounts : monitorCounts candidates response with
  | none => rfl
  | some counts =>
      rw [hcounts] at h
      dsimp only at h ⊢
      split
      · rfl
      · rename_i hcount
        rw [if_neg hcount] at h
        cases h

/-- The list of one band has it for its only field. -/
theorem OneBand.parsed {ft8 : Bool} {list : CString} {entry : BandFrequency}
    (h : OneBand (bandTable ft8) list entry) (hlist : ∀ c ∈ list, c ≠ 0) (plan : WsprHopPlan) :
    (hopPlanParseInto plan list ft8).1 = false ∧
      (hopPlanParseInto plan list ft8).2.bands = [entry.hopBand] := by
  have hnonempty : list ≠ [] := by
    rintro rfl
    exact fieldNames_nil (bandTable_sound ft8) entry h.names
  have hloop : hopPlanParseLoop (findInTable (bandTable ft8)) .empty (list.splitOn ','.toUInt8) =
      some ⟨[entry.hopBand], Nat.succ_le_succ (Nat.zero_le _)⟩ := by
    rw [List.splitOn_eq_singleton h.single,
      hopPlanParseLoop_some_iff (bandTable_sound ft8) (planBuilt_empty _)]
    exact ⟨[entry], List.Forall₂.cons h.names List.Forall₂.nil, rfl, List.nodup_singleton _⟩
  rw [hopPlanParseInto_text plan hlist hnonempty h.short, hloop]
  exact ⟨rfl, rfl⟩

/-- A plan that is left behind with bands in it is the plan of one band. -/
theorem hopPlanParseInto_false {ft8 : Bool} {list : CString} (hlist : ∀ c ∈ list, c ≠ 0)
    {plan : WsprHopPlan} (h : (hopPlanParseInto plan list ft8).1 = false) :
    (hopPlanParseInto plan list ft8).2 = plan ∨
      (hopPlanParseInto plan list ft8).2.bands.length = 0 ∨
        ∃ entry, OneBand (bandTable ft8) list entry := by
  by_cases hfits : list = [] ∨ 256 ≤ list.length
  · rw [hopPlanParseInto, if_pos hfits]
    exact Or.inl rfl
  · have hnonempty : list ≠ [] := fun hempty => hfits (Or.inl hempty)
    have hshort : list.length < 256 := Nat.not_le.mp fun hlong => hfits (Or.inr hlong)
    rw [hopPlanParseInto_text plan hlist hnonempty hshort] at h ⊢
    right
    cases hloop : hopPlanParseLoop (findInTable (bandTable ft8)) .empty
        (list.splitOn ','.toUInt8) with
    | none => exact Or.inl rfl
    | some parsed =>
        obtain ⟨entries, hfields, hbands, -⟩ := (hopPlanParseLoop_some_iff
          (bandTable_sound ft8) (planBuilt_empty (bandTable ft8))).mp hloop
        rw [hloop, loopOutcome, decide_eq_false_iff_not, hbands, List.length_append,
          List.length_map] at h
        by_cases hcomma : ','.toUInt8 ∈ list
        · obtain ⟨field, rest, rfl, hfield⟩ := List.eq_append_cons_of_mem hcomma
          have hrest := List.length_pos_iff.mpr (List.splitOn_ne_nil ','.toUInt8 rest)
          have hlength := hfields.length_eq
          rw [List.splitOn_append_cons_self_of_not_mem hfield, List.length_cons] at hlength
          omega
        · rw [List.splitOn_eq_singleton hcomma] at hfields
          obtain ⟨entry, entries, hnames, -, -⟩ := List.forall₂_cons_left_iff.mp hfields
          exact Or.inr ⟨entry, hshort, hcomma, hnames⟩

/-- A parser that returns false leaves no plan behind, unless it is the hop plan's and the list
names one band, which is not all that the plan held before. The others leave the plan as it was
or clear it. -/
theorem no_partial_plan_iff (parser : PlanParser) (candidates : WsprHopPlan) {text : CString}
    (htext : ∀ c ∈ text, c ≠ 0) (plan : WsprHopPlan) :
    parser.NoPartialPlan candidates text plan ↔
      ∀ ft8, parser = .hopPlan ft8 → ∀ entry, OneBand (bandTable ft8) text entry →
        plan.bands = [entry.hopBand] := by
  constructor
  · rintro hkept ft8 rfl entry hone
    obtain ⟨hfalse, hbands⟩ := hone.parsed htext plan
    rcases hkept hfalse with hsame | hempty
    · rw [← hsame]
      exact hbands
    · have hcount : (hopPlanParseInto plan text ft8).2.bands.length = 0 := hempty
      rw [hbands] at hcount
      cases hcount
  · intro hkept hfalse
    cases parser with
    | hopPlan ft8 =>
        rcases hopPlanParseInto_false htext hfalse with hsame | hempty | ⟨entry, hone⟩
        · exact Or.inl hsame
        · exact Or.inr hempty
        · left
          have hbands := (hone.parsed htext plan).2
          exact WsprHopPlan.ext_bands (hbands.trans (hkept ft8 rfl entry hone).symm)
    | wsprAdvisor => exact Or.inr (congrArg (·.bands.length) (wsprAdvisorLines_false hfalse))
    | ft8Advisor => exact Or.inr (congrArg (·.bands.length) (ft8AdvisorLoop_false hfalse))
    | ft8Monitor => exact Or.inr (congrArg (·.bands.length) (ft8MonitorParseInto_false hfalse))

/-- `20m,40m,10m`, parsed before into the plan. -/
theorem rows_leave_no_plan :
    PlanParser.wsprAdvisor.NoPartialPlan examplePlan (bytes "7\t12\t30\n14 0 3") examplePlan :=
  (no_partial_plan_iff .wsprAdvisor examplePlan (List.forall_mem_ne'.mpr (by decide))
    examplePlan).mpr fun _ h => by cases h

/-- The list `20m` is refused, and leaves 20 m in the plan. -/
theorem oneBand_left_behind :
    (∀ c ∈ bytes "20m", c ≠ 0) ∧
      ¬ (PlanParser.hopPlan false).NoPartialPlan .empty (bytes "20m") examplePlan := by
  have hfound : findInTable (bandTable false) (trimmed (bytes "20m")) =
      some ⟨bytes "20m", bytes "20m", 14095600, 14⟩ := rfl
  have hnames := (findInTable_some_iff (bandTable_sound false)).mp hfound
  have htext : ∀ c ∈ bytes "20m", c ≠ 0 := List.forall_mem_ne'.mpr (by decide)
  obtain ⟨hfalse, hbands⟩ :=
    OneBand.parsed ⟨by decide, by decide, hnames⟩ htext examplePlan
  refine ⟨htext, fun hkept => ?_⟩
  rcases hkept hfalse with hsame | hempty
  · have hplan : (hopPlanParseInto examplePlan (bytes "20m") false).2 = examplePlan := hsame
    rw [hplan] at hbands
    exact absurd hbands (by decide)
  · have hcount : (hopPlanParseInto examplePlan (bytes "20m") false).2.bands.length = 0 := hempty
    rw [hbands] at hcount
    cases hcount

end AirspyhfWsprd.Bands
